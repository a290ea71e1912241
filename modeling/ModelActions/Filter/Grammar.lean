import ModelActions.Filter.Shorthand
import ModelActions.Json.Text

/-!
# The grammar of filters

Checks that a JSON value is a filter tree and makes it one. The first offence, from the top and from
left to right, is reported under its path, such as `conditions[1].op`.
-/
namespace ModelActions.Filter

def checkConnective (path : String) (members : Members Json) : Except Error Connective :=
  match (members.get? "op").bind Json.string? with
  | some "and" => .ok .and
  | some "or" => .ok .or
  | found => .error (.invalid (path ++ "op") (.connective found))

def checkLeaf (place : String) (members : Members Json) : Except Error Condition :=
  match (members.get? "attribute").bind Json.string? with
  | none | some "" => .error (.invalid (place ++ ".attribute") .leafWithoutAttribute)
  | some path =>
    match ((members.get? "op").bind Json.string?).bind Comparator.ofName? with
    | some op => .ok ⟨path, op, (members.get? "value").getD .null⟩
    | none =>
      .error (.invalid (place ++ ".op") (.comparator ((members.get? "op").getD .null).text))

mutual
def checkMembers (path : String) : List (String × Json) → Except Error (List Filter)
  | [] => .error (.invalid (path ++ "conditions") .groupWithoutConditions)
  | (key, value) :: members =>
    if key = "conditions" then checkConditions path value else checkMembers path members

def checkConditions (path : String) : Json → Except Error (List Filter)
  | .arr items =>
    if items.isEmpty then .error (.invalid (path ++ "conditions") .groupEmpty)
    else checkChildren path 0 items
  | _ => .error (.invalid (path ++ "conditions") .groupWithoutConditions)

def checkChildren (path : String) (i : Nat) : List Json → Except Error (List Filter)
  | [] => .ok []
  | j :: js => do
    let child ← checkChild (path ++ "conditions[" ++ toString i ++ "]") j
    let children ← checkChildren path (i + 1) js
    return child :: children

/-- A child at a place: a group if it has conditions, else a leaf. -/
def checkChild (place : String) : Json → Except Error Filter
  | .obj members =>
    if Members.has members "conditions" then do
      let op ← checkConnective (place ++ ".") members
      let children ← checkMembers (place ++ ".") members
      return .group op children
    else do
      return .condition (← checkLeaf place members)
  | _ => .error (.invalid place .leafNotObject)
end

/-- A filter tree from JSON in the form of a group. -/
def check : Json → Except Error FilterGroup
  | .obj members => do
    let op ← checkConnective "" members
    let children ← checkMembers "" members
    return ⟨op, children⟩
  | _ => .error (.invalid "conditions" .groupNotObject)

def parse (written : Json) : Except Error (Option FilterGroup) := do
  match ← expandShorthand written with
  | .null => return none
  | expanded => return some (← check expanded)

end ModelActions.Filter
