import ModelActions.Choice.Basic
import ModelActions.Error

/-!
# State graphs

An action is a graph of states. A task state runs the task registered for its resource, a choice
state goes where the first of its rules that holds leads, or else to its default.
-/
namespace ModelActions

structure TaskState where
  resource : String
  next : Option String := none
  /-- The run ends here, whatever `next` says. -/
  final : Bool := false
  deriving DecidableEq, Repr

structure ChoiceRule where
  predicate : Predicate
  next : String

structure ChoiceState where
  rules : List ChoiceRule
  default : Option String := none

inductive State where
  | task (t : TaskState)
  | choice (c : ChoiceState)

inductive StateKind where
  | task
  | choice
  deriving DecidableEq, Repr

def StateKind.name : StateKind → String
  | task => "Task"
  | choice => "Choice"

def State.kind : State → StateKind
  | task _ => .task
  | choice _ => .choice

structure Graph where
  comment : Option String := none
  start : String
  states : Members State

def ChoiceState.target? (c : ChoiceState) (input context : Json) : Option String :=
  match c.rules.find? fun r => r.predicate.holds input context with
  | some r => some r.next
  | none => c.default

namespace Graph

/-- A state may lead only to states of the graph. -/
def checkTarget (g : Graph) (state target : String) : Except Error Unit :=
  if g.states.has target then .ok () else .error (.undefinedState state target)

def checkRules (g : Graph) (state : String) : List ChoiceRule → Except Error Unit
  | [] => .ok ()
  | r :: rs => do g.checkTarget state r.next; checkRules g state rs

/-- Checks one state: a task has one of next and end and a known resource, a choice has rules. -/
def checkState (g : Graph) (known : String → Bool) (name : String) : State → Except Error Unit
  | .task t => do
    match t.next, t.final with
    | some _, true => .error (.unfitGraph (.nextAndEnd name))
    | some next, false => g.checkTarget name next
    | none, true => .ok ()
    | none, false => .error (.missingTransition name)
    if known t.resource then .ok () else .error (.unknownTask t.resource)
  | .choice c => do
    if c.rules.isEmpty then .error (.unfitGraph (.noRules name))
    g.checkRules name c.rules
    match c.default with
    | some target => g.checkTarget name target
    | none => .ok ()

def checkStates (g : Graph) (known : String → Bool) : List (String × State) → Except Error Unit
  | [] => .ok ()
  | (name, s) :: states => do g.checkState known name s; checkStates g known states

/-- Checks a graph against the resources that are known. A choice without a default passes, though
it may find no rule that holds. -/
def check (g : Graph) (known : String → Bool) : Except Error Unit := do
  if !g.states.has g.start then .error (.undefinedState "StartAt" g.start)
  g.checkStates known g.states

def checkStructure (g : Graph) : Except Error Unit := g.check fun _ => true

end Graph
end ModelActions
