import ModelActions.Proofs.Calls

/-!
# Sessions

Calls that come one after the other to a row store. What they leave behind is the work of the
operations that they logged.
-/
namespace ModelActions.Store
open Operation (Guarded)

/-- A store after some calls, each at a time and with keys of its own. -/
def session (registry : Registry) (settings : Settings) (patience : Nat) :
    List (World × Call) → Store → Store
  | [], s => s
  | (world, call) :: calls, s =>
    session registry settings patience calls
      (((runner world registry settings patience).answer call).runFrom s).2

/-- A store after some operations. -/
def replay : List (World × Operation) → Store → Store
  | [], s => s
  | (world, op) :: steps, s => replay steps (execute world op s).2

theorem replay_append (steps steps' : List (World × Operation)) (s : Store) :
    replay (steps ++ steps') s = replay steps' (replay steps s) := by
  induction steps generalizing s with
  | nil => rfl
  | cons step steps ih => exact ih _

theorem rows_replay_congr (steps : List (World × Operation)) {s t : Store} (h : t.rows = s.rows) :
    (replay steps t).rows = (replay steps s).rows := by
  induction steps generalizing s t with
  | nil => exact h
  | cons step steps ih => exact ih (rows_carryOut_congr _ _ h)

/-- The way from one store to another is that of some guarded operations, which the log lists. -/
structure Replays (registry : Registry) (steps : List (World × Operation)) (s t : Store) :
    Prop where
  guarded : ∀ step ∈ steps, step.2.Guarded registry
  log : t.log = s.log ++ steps.map (·.2)
  rows : t.rows = (replay steps s).rows

namespace Replays
variable {registry : Registry} {steps steps' : List (World × Operation)} {s t u : Store}

theorem trans (first : Replays registry steps s t) (second : Replays registry steps' t u) :
    Replays registry (steps ++ steps') s u where
  guarded step h := (List.mem_append.1 h).elim (first.guarded step) (second.guarded step)
  log := by rw [second.log, first.log, List.map_append, List.append_assoc]
  rows := by rw [second.rows, rows_replay_congr steps' first.rows, replay_append]

theorem single (world : World) {op : Operation} (guarded : op.Guarded registry) :
    Replays registry [(world, op)] s (execute world op s).2 where
  guarded step h := by
    obtain rfl := List.mem_singleton.1 h
    exact guarded
  log := log_execute world op s
  rows := rfl

end Replays

theorem host_keeps_replays {registry : Registry} (world : World) (s : Store) :
    (host world).Keeps (Guarded registry) fun t => ∃ steps, Replays registry steps s t where
  execute guarded h := by
    obtain ⟨steps, h⟩ := h
    exact ⟨_, h.trans (.single world guarded)⟩
  now h := h
  freshKey h := by
    obtain ⟨steps, h⟩ := h
    exact ⟨steps, h.guarded, h.log, h.rows⟩

theorem answer_replays (registry : Registry) (settings : Settings) (patience : Nat) (world : World)
    (call : Call) (s : Store) :
    ∃ steps, Replays registry steps s
      (((runner world registry settings patience).answer call).runFrom s).2 := by
  have hsends := (runner world registry settings patience).answer_sends rfl call
  exact hsends.keeps (host_keeps_replays world s) ⟨[], by simp, by simp, rfl⟩

/-- A session does what the operations that it logs do, one by one. -/
theorem session_replays (registry : Registry) (settings : Settings) (patience : Nat)
    (calls : List (World × Call)) (s : Store) :
    ∃ steps, Replays registry steps s (session registry settings patience calls s) := by
  induction calls generalizing s with
  | nil => exact ⟨[], by simp, by simp [session], rfl⟩
  | cons entry calls ih =>
    obtain ⟨steps, h⟩ := answer_replays registry settings patience entry.1 entry.2 s
    obtain ⟨steps', h'⟩ := ih _
    exact ⟨_, h.trans h'⟩

end ModelActions.Store
