import ModelActions.Proofs.GuardedOperations

/-!
# Calls

What callers ask of a runner. A call is turned down before anything is sent, or starts to walk a
graph.
-/
namespace ModelActions
variable {σ : Type}

/-- An action on a model, or any graph on it. -/
inductive Call where
  | action (model action : String) (input : Json)
  | graph (model : String) (g : Graph) (input : Json)

/-- What a call starts: the graph of an action on a model. -/
structure Start where
  model : Model
  action : String
  graph : Graph
  input : Json

theorem Walk.settle_eq_error {α β : Type} {f : Packet → α → β}
    {answer : (Packet × Except Error α) × σ} {e : Error} {t : σ} :
    settle f answer = (.error e, t) ↔ answer.1.2 = .error e ∧ answer.2 = t := by
  obtain ⟨⟨p, e' | a⟩, s⟩ := answer <;> simp [settle, Except.map]

namespace Runner

def answer (r : Runner σ) : Call → Act σ Packet
  | .action model action input => r.run model action input
  | .graph model g input => r.runGraph model g input

/-- What a call starts, unless it is turned down. -/
def start (r : Runner σ) : Call → Except Error Start
  | .action model action input => do
    let m ← r.toEngine.model model
    let a := Action.ofName action
    let input ← Input.check a r.settings input
    let g ← a.graph m
    return ⟨m, a.name, g, input⟩
  | .graph model g input => do
    if r.settings.eagerGraphValidation then g.check r.tasks.has
    let m ← r.toEngine.model model
    return ⟨m, g.comment.getD "graph", g, input⟩

def contextOf (r : Runner σ) (start : Start) : Context σ := r.context start.model start.action

def walkOf (r : Runner σ) (start : Start) : StateM σ (Packet × Except Error Unit) :=
  Walk.run start.graph r.tasks (r.contextOf start) r.settings.debugTrace r.patience
    { input := start.input, context := (r.contextOf start).document }

theorem runFrom_drive (r : Runner σ) (model action : String) (g : Graph) (input : Json) (s : σ) :
    (r.drive model action g input).runFrom s =
      match (do return ⟨← r.toEngine.model model, action, g, input⟩ : Except Error Start) with
      | .ok start => Walk.settle (fun p _ => p) ((r.walkOf start).run s)
      | .error e => (.error e, s) := by
  rw [drive]
  cases r.toEngine.model model <;> rfl

/-- A call that is turned down changes nothing; the answer to any other is that of its walk. -/
theorem runFrom_answer (r : Runner σ) (call : Call) (s : σ) :
    (r.answer call).runFrom s =
      match r.start call with
      | .ok start => Walk.settle (fun p _ => p) ((r.walkOf start).run s)
      | .error e => (.error e, s) := by
  cases call with
  | action model action input =>
    simp only [answer, run, start, Act.runFrom_bind, Act.runFrom_ofExcept]
    cases hm : r.toEngine.model model with
    | error e => rfl
    | ok m =>
      cases Input.check (.ofName action) r.settings input with
      | error e => rfl
      | ok input =>
        dsimp only [bind, Except.bind]
        cases (Action.ofName action).graph m with
        | error e => rfl
        | ok g =>
          dsimp only
          rw [runFrom_drive, hm]
          rfl
  | graph model g input =>
    simp only [answer, runGraph, start]
    have hdrive := r.runFrom_drive model (g.comment.getD "graph") g input s
    split
    · rw [Act.runFrom_bind, Act.runFrom_ofExcept]
      cases g.check r.tasks.has with
      | error e => rfl
      | ok => exact hdrive
    · exact hdrive

theorem answer_sends (r : Runner σ) (htasks : r.tasks = Tasks.builtin) (call : Call) :
    Act.Sends r.host (Operation.Guarded r.registry) (r.answer call) fun _ => True := by
  cases call with
  | action model action input => exact r.run_sends htasks model action input
  | graph model g input =>
    have hdrive := r.drive_sends htasks model (g.comment.getD "graph") g input
    simp only [answer, runGraph]
    split
    · exact .bind (.ofExcept _) fun _ _ => hdrive
    · exact hdrive

end Runner
end ModelActions
