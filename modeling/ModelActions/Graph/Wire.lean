import ModelActions.Choice.Wire
import ModelActions.Graph.Basic

/-!
# State graphs as JSON

States carry their kind under `Type`. The rules of a choice state are predicates with one more
member, `Next`.
-/
namespace ModelActions

namespace Misreading

def ofOption {α : Type} : Option α → Except Misreading α
  | some a => .ok a
  | none => .error .shape

def field {α : Type} (r : Members Json) (key : String) (read : Json → Except Misreading α) :
    Except Misreading (Option α) :=
  match r.get? key with
  | some j => do return some (← read j)
  | none => .ok none

end Misreading

namespace TaskState

def fields : List String := ["Resource", "Next", "End"]

def toMembers (t : TaskState) : List (String × Option Json) :=
  [("End", some (.bool t.final)), ("Next", t.next.map .str), ("Resource", some (.str t.resource)),
    ("Type", some (.str "Task"))]

def ofJson? (j : Json) : Option TaskState := do
  let r ← j.record? fields
  return {
    resource := ← r.required "Resource" Json.string?
    next := ← r.optional "Next" Json.string?
    final := ← r.defaulted "End" Json.bool? false }

end TaskState

namespace ChoiceRule

def toJson (r : ChoiceRule) : Json := .obj (r.predicate.toMembers.insert "Next" (.str r.next))

/-- The target is read before the predicate. -/
def ofJson (j : Json) : Except Misreading ChoiceRule := do
  let members ← Misreading.ofOption j.members?
  let next ← Misreading.ofOption (members.required "Next" Json.string?)
  return ⟨← Predicate.ofJson j, next⟩

end ChoiceRule

namespace ChoiceState

def fields : List String := ["Choices", "Default"]

def toMembers (c : ChoiceState) : List (String × Option Json) :=
  [("Choices", some (.arr (c.rules.map ChoiceRule.toJson))), ("Default", c.default.map .str),
    ("Type", some (.str "Choice"))]

def ofJson (j : Json) : Except Misreading ChoiceState := do
  let r ← Misreading.ofOption (j.namedFields? fields)
  let choices ← Misreading.ofOption (r.required "Choices" Json.items?)
  let rules ← choices.mapM ChoiceRule.ofJson
  let default ← Misreading.ofOption (r.optional "Default" Json.string?)
  if j.hasSurplus fields then .error .shape else return ⟨rules, default⟩

end ChoiceState

namespace State

def toJson : State → Json
  | task t => .object t.toMembers
  | choice c => .object c.toMembers

/-- The kind of a state, and its other fields as an object or an array. -/
def untag? : Json → Option (String × Json)
  | .obj members => do
    return (← (Members.get? members "Type").bind Json.string?, .obj (Members.erase members "Type"))
  | .arr (.str kind :: fields) => some (kind, .arr fields)
  | _ => none

def ofJson (j : Json) : Except Misreading State := do
  match ← Misreading.ofOption (untag? j) with
  | ("Task", body) => return task (← Misreading.ofOption (TaskState.ofJson? body))
  | ("Choice", body) => return choice (← ChoiceState.ofJson body)
  | _ => .error .shape

end State

namespace Graph

def fields : List String := ["Comment", "StartAt", "States"]

def toJson (g : Graph) : Json :=
  .object [("Comment", g.comment.map .str), ("StartAt", some (.str g.start)),
    ("States", some (.obj (g.states.map fun e => (e.1, e.2.toJson))))]

def statesOf (j : Json) : Except Misreading (Members State) := do
  let members ← Misreading.ofOption j.members?
  members.mapM fun e => do return (e.1, ← State.ofJson e.2)

def ofJson (j : Json) : Except Misreading Graph := do
  let r ← Misreading.ofOption (j.namedFields? fields)
  let comment ← Misreading.ofOption (r.optional "Comment" Json.string?)
  let start ← Misreading.field r "StartAt" fun j => Misreading.ofOption j.string?
  let states ← Misreading.field r "States" statesOf
  if j.hasSurplus fields then .error .shape
  else return ⟨comment, ← Misreading.ofOption start, ← Misreading.ofOption states⟩

/-- A graph, where it does not matter why it cannot be read. -/
def ofJson? (j : Json) : Option Graph := (ofJson j).toOption

end Graph
end ModelActions
