import ModelActions.Inflection
import ModelActions.Json.Record
import ModelActions.Operation.Basic
import ModelActions.Text.Snake

/-!
# Relationships

A relationship of a model names a related model and ties a column of its own rows, the source, to a
column of the related rows, the target.
-/
namespace ModelActions

inductive RelationshipKind where
  | belongsTo
  | hasMany
  | hasOne
  deriving DecidableEq, Repr

namespace RelationshipKind

def name : RelationshipKind → String
  | belongsTo => "belongsTo"
  | hasMany => "hasMany"
  | hasOne => "hasOne"

def ofName? : String → Option RelationshipKind
  | "belongsTo" => some belongsTo
  | "hasMany" => some hasMany
  | "hasOne" => some hasOne
  | _ => none

def ofJson? (j : Json) : Option RelationshipKind := j.name?.bind ofName?

end RelationshipKind

/-- A relationship as it is declared; keys may be left open. -/
structure RelationshipSpec where
  kind : RelationshipKind
  model : String
  foreignKey : Option String := none
  ownerKey : Option String := none
  localKey : Option String := none
  deriving DecidableEq, Repr

def RelationshipSpec.fields : List String := ["type", "model", "foreignKey", "ownerKey", "localKey"]

def RelationshipSpec.ofJson? (j : Json) : Option RelationshipSpec := do
  let r ← j.record? fields
  return {
    kind := ← r.required "type" RelationshipKind.ofJson?
    model := ← r.required "model" Json.string?
    foreignKey := ← r.optional "foreignKey" Json.string?
    ownerKey := ← r.optional "ownerKey" Json.string?
    localKey := ← r.optional "localKey" Json.string? }

structure Relationship where
  kind : RelationshipKind
  name : String
  /-- The model that declares it. -/
  model : String
  /-- The model that it leads to. -/
  related : String
  /-- The column of the declaring model. -/
  source : String
  /-- The column of the related model. -/
  target : String
  deriving DecidableEq, Repr

/-- `comments` gives `comment_id`. -/
def foreignKeyOf (name : String) : String :=
  Inflection.singularize (Snake.ofString name) ++ "_id"

namespace Relationship

/-- Fills open keys: the foreign key of a belongs-to relationship comes from its name and that of
the others from the declaring model's name; the other key is the primary key of its model. -/
def ofSpec (name model modelKey relatedKey : String) (spec : RelationshipSpec) : Relationship :=
  match spec.kind with
  | .belongsTo =>
    { kind := .belongsTo, name, model, related := spec.model
      source := spec.foreignKey.getD (foreignKeyOf name)
      target := spec.ownerKey.getD relatedKey }
  | kind =>
    { kind, name, model, related := spec.model
      source := spec.localKey.getD modelKey
      target := spec.foreignKey.getD (foreignKeyOf model) }

/-- Leads to a list of rows, not to a single one. -/
def isCollection (r : Relationship) : Bool := r.kind == .hasMany

/-- The join along the relationship, between the tables of the two models. -/
def join (r : Relationship) (table relatedTable : String) : Join :=
  { table := relatedTable, kind := .left
    conditions := [⟨table ++ "." ++ r.source, relatedTable ++ "." ++ r.target⟩] }

end Relationship
end ModelActions
