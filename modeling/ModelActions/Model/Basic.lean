import ModelActions.Filter.Basic
import ModelActions.Graph.Basic
import ModelActions.Relationship

/-!
# Models

A model describes the rows of a table: the types of their attributes, how the table is configured,
which models they are related to, and which scopes, views and actions callers may name.
-/
namespace ModelActions

inductive AttributeType where
  | string
  | text
  | uuid
  | date
  | datetime
  | integer
  | number
  | boolean
  | json
  | array
  deriving DecidableEq, Repr

namespace AttributeType

def all : List AttributeType :=
  [string, text, uuid, date, datetime, integer, number, boolean, json, array]

def name : AttributeType → String
  | string => "string"
  | text => "text"
  | uuid => "uuid"
  | date => "date"
  | datetime => "datetime"
  | integer => "integer"
  | number => "number"
  | boolean => "boolean"
  | json => "json"
  | array => "array"

def ofName? (s : String) : Option AttributeType := all.find? fun t => t.name == s

@[simp] theorem ofName?_name (t : AttributeType) : ofName? t.name = some t := by
  cases t <;> decide +kernel

/-- Whether a value fits the type; null fits every type. -/
def accepts (t : AttributeType) (value : Json) : Bool :=
  value.isNull ||
    match t with
    | string | text | uuid | date | datetime => value.isString
    | integer => value.isInteger
    | number => value.isNumber
    | boolean => value.isBool
    | array => value.isArray
    | json => true

end AttributeType

/-- The configuration of a model, with everything that was left open filled in. -/
structure ModelConfig where
  primaryKey : String
  table : String
  connection : Option String
  softDelete : Bool
  timestamps : Bool
  singular : String
  plural : String
  deriving DecidableEq, Repr

abbrev ScopeTable := Members FilterGroup

structure Model where
  name : String
  schema : Members AttributeType
  config : ModelConfig
  relationships : Members Relationship
  scopes : ScopeTable
  views : Members ScopeTable
  /-- Graphs of the model's own actions. -/
  actions : Members Graph

/-- The rows that are not marked as deleted. -/
def liveRows : FilterGroup := .leaf deletedAt .isEmpty .null

namespace Model

def table (m : Model) : String := m.config.table

def primaryKey (m : Model) : String := m.config.primaryKey

def relationship (m : Model) (name : String) : Except Error Relationship :=
  match m.relationships.get? name with
  | some r => .ok r
  | none => .error (.unknownRelationship m.name name)

def view (m : Model) (name : String) : Except Error ScopeTable :=
  match m.views.get? name with
  | some v => .ok v
  | none => .error (.unknownView m.name name)

/-- Restricts a filter to live rows if the model uses soft deletes. -/
def guardGroup (m : Model) (g : FilterGroup) : FilterGroup :=
  if m.config.softDelete then .and [g.toFilter, liveRows.toFilter] else g

/-- Restricts a filter, or its absence, to live rows if the model uses soft deletes. -/
def guard (m : Model) : Option FilterGroup → Option FilterGroup
  | some g => some (m.guardGroup g)
  | none => if m.config.softDelete then some liveRows else none

/-- The context of an action on the model, as choice states see it. -/
def document (m : Model) (action : String) : Json :=
  .obj [
    ("action", .str action),
    ("config", .obj [
      ("connection", .ofOption .str m.config.connection),
      ("plural", .str m.config.plural),
      ("primaryKey", .str m.config.primaryKey),
      ("singular", .str m.config.singular),
      ("softDelete", .bool m.config.softDelete),
      ("table", .str m.config.table),
      ("timestamps", .bool m.config.timestamps)]),
    ("model", .str m.name),
    ("schema", .obj (m.schema.map fun e => (e.1, .str e.2.name)))]

end Model
end ModelActions
