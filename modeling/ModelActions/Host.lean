import ModelActions.Operation.Basic

/-!
# Hosts

What the engine runs against: an operator that answers operations, a clock and a source of fresh
keys, all with a state of their own. The engine reaches the outside only through a host, and a
computation of the engine is a function on the host's states.
-/
namespace ModelActions

/-- Why an operator has no answer to an operation. -/
inductive Failure where
  /-- The operator gives a reason. -/
  | refused (reason : String)
  /-- The operator crashes. -/
  | crashed

/-- How a computation ends when the operator fails. -/
def Failure.toError : Failure → Error
  | refused reason => .operator reason
  | crashed => .crashed

/-- A source of answers, times and keys with states of type `σ`. An operator may fail. -/
structure Host (σ : Type) where
  /-- Answers an operation. -/
  execute : Operation → σ → Except Failure Answer × σ
  /-- The time, in the format of RFC 3339. -/
  now : σ → String × σ
  /-- A version 4 UUID that was not given before. -/
  freshKey : σ → String × σ

/-- A computation against a host: it may fail, and leaves the host in some state in any case. -/
abbrev Act (σ α : Type) := ExceptT Error (StateM σ) α

def Act.runFrom {σ α : Type} (act : Act σ α) (s : σ) : Except Error α × σ := act.run.run s

def Act.ofExcept {σ α : Type} : Except Error α → Act σ α
  | .ok a => pure a
  | .error e => throw e

namespace Host
variable {σ : Type}

/-- Sends one operation; the operator's failure ends the computation. -/
def perform (host : Host σ) (op : Operation) : Act σ Answer :=
  ExceptT.mk fun s =>
    match host.execute op s with
    | (.ok answer, s') => (.ok answer, s')
    | (.error failure, s') => (.error failure.toError, s')

def readClock (host : Host σ) : Act σ String :=
  ExceptT.mk fun s => let (t, s') := host.now s; (.ok t, s')

def drawKey (host : Host σ) : Act σ String :=
  ExceptT.mk fun s => let (k, s') := host.freshKey s; (.ok k, s')

/-- The same host, whose states also list the operations sent so far and what became of them. -/
def recorded (host : Host σ) : Host (σ × List (Operation × Except Failure Answer)) where
  execute op s :=
    let (answer, s') := host.execute op s.1
    (answer, (s', s.2 ++ [(op, answer)]))
  now s := let (t, s') := host.now s.1; (t, (s', s.2))
  freshKey s := let (k, s') := host.freshKey s.1; (k, (s', s.2))

end Host
end ModelActions
