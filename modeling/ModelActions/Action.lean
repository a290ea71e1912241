import ModelActions.Graph.Builtin
import ModelActions.Model.Basic

/-!
# Actions

What can be done with a model: five built-in actions and those that the model declares itself.
-/
namespace ModelActions

inductive Action where
  | create
  | readOne
  | readList
  | update
  | delete
  | custom (name : String)
  deriving DecidableEq, Repr

namespace Action

def name : Action → String
  | create => "create"
  | readOne => "readOne"
  | readList => "readList"
  | update => "update"
  | delete => "delete"
  | custom name => name

/-- The action under a name; a name that is not built in is one of the model's own. -/
def ofName : String → Action
  | "create" => create
  | "readOne" => readOne
  | "readList" => readList
  | "update" => update
  | "delete" => delete
  | name => custom name

def isBuiltin : Action → Bool
  | custom _ => false
  | _ => true

theorem name_ofName (s : String) : (ofName s).name = s := by
  unfold ofName; split <;> rfl

def graph (m : Model) : Action → Except Error Graph
  | create => .ok Graph.create
  | readOne => .ok Graph.readOne
  | readList => .ok Graph.readList
  | update => .ok Graph.update
  | delete => .ok Graph.delete
  | custom name =>
    match m.actions.get? name with
    | some g => .ok g
    | none => .error (.invalid "action" (.noAction m.name name))

end Action
end ModelActions
