import ModelActions.Graph.Wire
import ModelActions.Model.Basic

/-!
# Model specifications

Models as they are declared, and how they are read from JSON. What a declaration leaves open follows
from the model's name: the table is the plural of its snake case.
-/
namespace ModelActions

/-- A configuration as declared. -/
structure ConfigSpec where
  primaryKey : Option String := none
  table : Option String := none
  connection : Option String := none
  softDelete : Bool := false
  timestamps : Bool := false
  singular : Option String := none
  plural : Option String := none
  deriving DecidableEq, Repr

structure ModelSpec where
  name : String
  schema : Members AttributeType := []
  config : ConfigSpec := {}
  relationships : Members RelationshipSpec := []
  scopes : Members Json := []
  /-- The scopes of each view. -/
  views : Members (Members Json) := []
  actions : Members Graph := []

def ConfigSpec.complete (spec : ConfigSpec) (name : String) : ModelConfig :=
  let singular := spec.singular.getD (Inflection.singularize (Snake.ofString name))
  let plural := spec.plural.getD (Inflection.pluralize singular)
  { primaryKey := spec.primaryKey.getD "id"
    table := spec.table.getD plural
    connection := spec.connection
    softDelete := spec.softDelete
    timestamps := spec.timestamps
    singular, plural }

def AttributeType.ofJson? (j : Json) : Option AttributeType := j.name?.bind ofName?

namespace ConfigSpec

def fields : List String :=
  ["primaryKey", "table", "connection", "softDelete", "timestamps", "singular", "plural"]

def ofJson? (j : Json) : Option ConfigSpec := do
  let r ← j.record? fields
  return {
    primaryKey := ← r.optional "primaryKey" Json.string?
    table := ← r.optional "table" Json.string?
    connection := ← r.optional "connection" Json.string?
    softDelete := ← r.defaulted "softDelete" Json.bool? false
    timestamps := ← r.defaulted "timestamps" Json.bool? false
    singular := ← r.optional "singular" Json.string?
    plural := ← r.optional "plural" Json.string? }

end ConfigSpec

namespace ModelSpec

def fields : List String :=
  ["name", "schema", "config", "relationships", "scopes", "views", "actions"]

def viewOf? (j : Json) : Option (Members Json) := do
  let r ← j.record? ["scopes"]
  r.defaulted "scopes" Json.members? []

def ofJson? (j : Json) : Option ModelSpec := do
  let r ← j.record? fields
  return {
    name := ← r.required "name" Json.string?
    schema := ← r.defaulted "schema" (Json.membersOf AttributeType.ofJson?) []
    config := ← r.defaulted "config" ConfigSpec.ofJson? {}
    relationships := ← r.defaulted "relationships" (Json.membersOf RelationshipSpec.ofJson?) []
    scopes := ← r.defaulted "scopes" Json.members? []
    views := ← r.defaulted "views" (Json.membersOf viewOf?) []
    actions := ← r.defaulted "actions" (Json.membersOf Graph.ofJson?) [] }

end ModelSpec
end ModelActions
