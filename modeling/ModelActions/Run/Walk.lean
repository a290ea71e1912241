import ModelActions.Task.Basic

/-!
# Walking a graph

A run starts at the first state of a graph and goes from state to state. The output of each state is
the input of the next, and every state that was completed is recorded.
-/
namespace ModelActions

structure Trace where
  input : Json
  output : Json

structure Record where
  number : Nat
  state : String
  kind : StateKind
  trace : Option Trace

/-- What a run carries along. -/
structure Packet where
  input : Json
  output : Json := .null
  /-- What choice states see as `$$`. -/
  context : Json
  history : List Record := []

namespace Packet

def visited (p : Packet) : List String := p.history.map (·.state)

def record (p : Packet) (traced : Bool) (state : String) (kind : StateKind) : Packet :=
  let trace := if traced then some ⟨p.input, p.output⟩ else none
  { p with history := p.history ++ [⟨p.history.length + 1, state, kind, trace⟩] }

def advance (p : Packet) : Packet := { p with input := p.output }

end Packet

/-- How a state was left: at the end of the run, or towards another state. -/
inductive Exit where
  | done
  | next (state : String)
  deriving DecidableEq, Repr

namespace Walk
variable {σ : Type}

def taskExit (name : String) (t : TaskState) : Except Error Exit :=
  if t.final then .ok .done
  else match t.next with
    | some next => .ok (.next next)
    | none => .error (.missingTransition name)

/-- Completes one state. The packet has the state's output as soon as there is one, even if the
state then leads nowhere. -/
def visit (tasks : Tasks σ) (ctx : Context σ) (name : String) (s : State) (p : Packet) :
    StateM σ (Packet × Except Error Exit) :=
  match s with
  | .task t =>
    match tasks.get t.resource with
    | .error e => return (p, .error e)
    | .ok handler => do
      match ← (handler ctx p.input).run with
      | .error e => return (p, .error e)
      | .ok output => return ({ p with output }, taskExit name t)
  | .choice c =>
    let p' := { p with output := p.input }
    match c.target? p.input p.context with
    | some next => return (p', .ok (.next next))
    | none => return (p', .error (.missingTransition name))

/-- Walks through at most `fuel` states from `current`, which was reached from `previous`. -/
def walk (g : Graph) (tasks : Tasks σ) (ctx : Context σ) (traced : Bool) :
    Nat → String → String → Packet → StateM σ (Packet × Except Error Unit)
  | 0, _, current, p => return (p, .error (.givenUp current))
  | fuel + 1, previous, current, p =>
    match g.states.get? current with
    | none => return (p, .error (.undefinedState previous current))
    | some s => do
      match ← visit tasks ctx current s p with
      | (q, .error e) => return (q, .error e)
      | (q, .ok .done) => return (q.record traced current s.kind, .ok ())
      | (q, .ok (.next next)) =>
        walk g tasks ctx traced fuel current next (q.record traced current s.kind).advance

/-- Runs a graph. A run without cycles is never given up; one with cycles may visit `patience`
states more than the graph has. -/
def run (g : Graph) (tasks : Tasks σ) (ctx : Context σ) (traced : Bool) (patience : Nat)
    (p : Packet) : StateM σ (Packet × Except Error Unit) :=
  walk g tasks ctx traced (g.states.length + 1 + patience) "StartAt" g.start p

end Walk
end ModelActions
