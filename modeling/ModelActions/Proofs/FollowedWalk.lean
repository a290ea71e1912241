import ModelActions.Proofs.Computation
import ModelActions.Run.Runner

/-!
# Walks as computations

A run hands on its packet even where it fails, which is of use to those who look at the history
only. Without that a walk is a computation like those of its tasks.
-/
namespace ModelActions
namespace Walk
variable {σ : Type}

/-- Completes one state or fails. -/
def enter (tasks : Tasks σ) (ctx : Context σ) (name : String) (s : State) (p : Packet) :
    Act σ (Packet × Exit) :=
  match s with
  | .task t => do
    let handler ← Act.ofExcept (tasks.get t.resource)
    let output ← handler ctx p.input
    let exit ← Act.ofExcept (taskExit name t)
    return ({ p with output }, exit)
  | .choice c =>
    match c.target? p.input p.context with
    | some next => return ({ p with output := p.input }, .next next)
    | none => throw (.missingTransition name)

/-- Walks to the end of a graph or fails. -/
def follow (g : Graph) (tasks : Tasks σ) (ctx : Context σ) (traced : Bool) :
    Nat → String → String → Packet → Act σ Packet
  | 0, _, current, _ => throw (.givenUp current)
  | fuel + 1, previous, current, p =>
    match g.states.get? current with
    | none => throw (.undefinedState previous current)
    | some s => do
      let (q, exit) ← enter tasks ctx current s p
      match exit with
      | .done => return q.record traced current s.kind
      | .next next =>
        follow g tasks ctx traced fuel current next (q.record traced current s.kind).advance

/-- A result that drops the packet of a failure. -/
def settle {α β : Type} (f : Packet → α → β) (answer : (Packet × Except Error α) × σ) :
    Except Error β × σ :=
  (answer.1.2.map (f answer.1.1), answer.2)

theorem runFrom_enter (tasks : Tasks σ) (ctx : Context σ) (name : String) (state : State)
    (p : Packet) (s : σ) :
    (enter tasks ctx name state p).runFrom s =
      settle Prod.mk ((visit tasks ctx name state p).run s) := by
  cases state with
  | task t =>
    simp only [enter, visit]
    cases tasks.get t.resource with
    | error e => rfl
    | ok handler =>
      rw [Act.runFrom_bind_ok (Act.runFrom_ofExcept _ s), Act.runFrom_bind]
      simp only [Act.runFrom, StateT.run_bind]
      rcases (handler ctx p.input).run.run s with ⟨_ | output, s'⟩
      · rfl
      · simp only [settle]
        cases taskExit name t <;> rfl
  | choice c =>
    simp only [enter, visit]
    cases c.target? p.input p.context <;> rfl

theorem runFrom_follow (g : Graph) (tasks : Tasks σ) (ctx : Context σ) (traced : Bool) (fuel : Nat)
    (previous current : String) (p : Packet) (s : σ) :
    (follow g tasks ctx traced fuel previous current p).runFrom s =
      settle (fun q _ => q) ((walk g tasks ctx traced fuel previous current p).run s) := by
  induction fuel generalizing previous current p s with
  | zero => rfl
  | succ fuel ih =>
    simp only [follow, walk]
    cases g.states.get? current with
    | none => rfl
    | some state =>
      simp only [Act.runFrom_bind, runFrom_enter, StateT.run_bind]
      rcases (visit tasks ctx current state p).run s with ⟨⟨q, _ | _ | next⟩, s'⟩
      · rfl
      · rfl
      · exact ih current next _ s'

section
variable {g : Graph} {tasks : Tasks σ} {ctx : Context σ} {traced : Bool} {fuel : Nat}
  {current next other resource : String} {handler : Handler σ}

theorem follow_taskTo (h : g.states.get? current = some (Graph.taskTo resource next))
    (hh : tasks.get resource = .ok handler) (previous : String) (p : Packet) :
    follow g tasks ctx traced (fuel + 1) previous current p = (do
      let output ← handler ctx p.input
      follow g tasks ctx traced fuel current next
        (({ p with output }).record traced current .task).advance) := by
  rw [follow, h]
  simp only [Graph.taskTo, enter, hh, taskExit, Act.ofExcept, pure_bind, bind_assoc]
  rfl

theorem follow_taskEnd (h : g.states.get? current = some (Graph.taskEnd resource))
    (hh : tasks.get resource = .ok handler) (previous : String) (p : Packet) :
    follow g tasks ctx traced (fuel + 1) previous current p = (do
      let output ← handler ctx p.input
      return ({ p with output }).record traced current .task) := by
  rw [follow, h]
  simp only [Graph.taskEnd, enter, hh, taskExit, Act.ofExcept, pure_bind, bind_assoc]
  rfl

theorem follow_branch {variableName : String} {test : Test}
    (h : g.states.get? current = some (Graph.branch variableName test next other))
    (previous : String) (p : Packet) :
    follow g tasks ctx traced (fuel + 1) previous current p =
      follow g tasks ctx traced fuel current
        (if (Predicate.test variableName test).holds p.input p.context then next else other)
        (({ p with output := p.input }).record traced current .choice).advance := by
  rw [follow, h]
  cases hp : (Predicate.test variableName test).holds p.input p.context <;>
    simp [Graph.branch, enter, ChoiceState.target?, List.find?, hp, State.kind]

end

end Walk

/-- A run of a graph follows it from its first state. -/
theorem Runner.drive_eq {σ : Type} (r : Runner σ) (model action : String) (g : Graph)
    (input : Json) :
    r.drive model action g input = (do
      let m ← Act.ofExcept (r.toEngine.model model)
      let ctx := r.context m action
      Walk.follow g r.tasks ctx r.settings.debugTrace (g.states.length + 1 + r.patience) "StartAt"
        g.start { input, context := ctx.document }) := by
  unfold drive
  congr
  funext m
  refine ExceptT.ext (StateT.ext fun s => ?_)
  refine Eq.trans ?_ (Walk.runFrom_follow ..).symm
  rfl

end ModelActions
