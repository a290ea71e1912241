import ModelActions.Json.Basic

/-!
# Reading records

How the shapes of this library are read from JSON. A record is written as an object, whose unknown
members are ignored, or as the array of its fields in their order, from which trailing fields may be
missing. An optional field may be absent or null; a field with a default may be absent, but where it
stands it has its type.
-/
namespace ModelActions
namespace Json

/-- The fields of a record by name, whichever way it is written; surplus items are left out. -/
def namedFields? (fields : List String) : Json → Option (Members Json)
  | .obj members => some members
  | .arr items => some (fields.zip items)
  | _ => none

/-- Whether an array has more items than a record has fields. -/
def hasSurplus (fields : List String) : Json → Bool
  | .arr items => fields.length < items.length
  | _ => false

/-- The fields of a record by name, unless there are surplus ones. -/
def record? (fields : List String) (j : Json) : Option (Members Json) :=
  if j.hasSurplus fields then none else j.namedFields? fields

/-- A name of an enumeration: a string, or an object with the name as its only key and null under
it. -/
def name? : Json → Option String
  | .str s => some s
  | .obj [(s, .null)] => some s
  | _ => none

def listOf {α : Type} (read : Json → Option α) : Json → Option (List α)
  | .arr items => items.mapM read
  | _ => none

def membersOf {α : Type} (read : Json → Option α) : Json → Option (Members α)
  | .obj members => members.mapM fun e => (read e.2).map (e.1, ·)
  | _ => none

def orNull {α : Type} (read : Json → Option α) : Json → Option (Option α)
  | .null => some none
  | j => (read j).map some

end Json

namespace Members

/-- A field that has to stand in the record. -/
def required {α : Type} (r : Members Json) (key : String) (read : Json → Option α) : Option α :=
  (r.get? key).bind read

/-- A field that may be absent or null. -/
def optional {α : Type} (r : Members Json) (key : String) (read : Json → Option α) :
    Option (Option α) :=
  match r.get? key with
  | none => some none
  | some j => j.orNull read

/-- A field that has a default when absent. -/
def defaulted {α : Type} (r : Members Json) (key : String) (read : Json → Option α) (default : α) :
    Option α :=
  match r.get? key with
  | none => some default
  | some j => read j

end Members

namespace Json

/-- The members that have a value, in ascending order of keys. -/
def object (fields : List (String × Option Json)) : Json :=
  .obj (Members.ofList (fields.filterMap fun e => e.2.map (e.1, ·)))

/-- A list, left out when empty. -/
def ofNonempty {α : Type} (encode : α → Json) (as : List α) : Option Json :=
  if as.isEmpty then none else some (.arr (as.map encode))

end Json
end ModelActions
