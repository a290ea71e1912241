import ModelActions.Filter.Shorthand
import ModelActions.Json.Record

/-!
# Filter trees as JSON

A node is read as a group if it has the fields of one, else as a leaf.
-/
namespace ModelActions

def Comparator.ofJson? (j : Json) : Option Comparator := j.name?.bind Comparator.ofName?

def Connective.ofJson? (j : Json) : Option Connective := j.name?.bind Connective.ofName?

namespace Condition

def fields : List String := ["attribute", "op", "value"]

def toJson (c : Condition) : Json :=
  Filter.conditionJson (.str c.path) (.str c.op.name) c.value

def ofMembers? (r : Members Json) : Option Condition := do
  let path ← r.required "attribute" Json.string?
  let op ← r.required "op" Comparator.ofJson?
  let value ← r.defaulted "value" some .null
  return ⟨path, op, value⟩

def ofJson? (j : Json) : Option Condition := (j.record? fields).bind ofMembers?

theorem ofJson?_toJson (c : Condition) : ofJson? c.toJson = some c := by
  simp [ofJson?, toJson, Filter.conditionJson, Json.record?, Json.hasSurplus, Json.namedFields?,
    ofMembers?, Members.required, Members.defaulted, Members.get?, Json.string?,
    Comparator.ofJson?, Json.name?]

end Condition

namespace Filter

mutual
def toJson : Filter → Json
  | .condition c => c.toJson
  | .group op children => groupJson (.str op.name) (toJsonAll children)

def toJsonAll : List Filter → List Json
  | [] => []
  | n :: ns => toJson n :: toJsonAll ns
end

mutual
def ofJson? : Json → Option Filter
  | .obj members =>
    match (Members.get? members "op").bind Connective.ofJson?, childrenIn? members with
    | some op, some children => some (.group op children)
    | _, _ => (Condition.ofMembers? members).map .condition
  | .arr [op, conditions] =>
    match Connective.ofJson? op, children? conditions with
    | some op, some children => some (.group op children)
    | _, _ => (Condition.ofJson? (.arr [op, conditions])).map .condition
  | j => (Condition.ofJson? j).map .condition

def childrenIn? : List (String × Json) → Option (List Filter)
  | [] => none
  | (key, value) :: members => if key = "conditions" then children? value else childrenIn? members

def children? : Json → Option (List Filter)
  | .arr items => ofJsonAll? items
  | _ => none

def ofJsonAll? : List Json → Option (List Filter)
  | [] => some []
  | j :: js => do
    let n ← ofJson? j
    let ns ← ofJsonAll? js
    return n :: ns
end

end Filter

namespace FilterGroup

def toJson (g : FilterGroup) : Json := g.toFilter.toJson

def ofJson? (j : Json) : Option FilterGroup :=
  match Filter.ofJson? j with
  | some (.group op children) => some ⟨op, children⟩
  | _ => none

end FilterGroup
end ModelActions
