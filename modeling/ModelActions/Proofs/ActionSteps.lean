import ModelActions.Proofs.FollowedWalk

/-!
# Actions as sequences of tasks

The graphs of the actions that write have no cycles, so a run of one is a fixed sequence of tasks.
The one choice, between the two ways to delete, is up to the configuration of the model.
-/
namespace ModelActions
variable {σ : Type}

/-- The time as a model with timestamps writes it. -/
def Model.timeAt (m : Model) (world : World) : Option String :=
  if m.config.timestamps then some world.now else none

namespace Steps

/-- The tasks of a create before it writes. -/
def prepare (ctx : Context σ) (input : Json) : Act σ Json := do
  let cleaned ← Act.ofExcept (Task.clean ctx.model.schema input)
  let checked ← Act.ofExcept (Task.validate ctx.model.schema ctx.action cleaned)
  Task.generate ctx checked

/-- The tasks of a create. -/
def create (ctx : Context σ) (input : Json) : Act σ Json := do
  let generated ← prepare ctx input
  let inserted ← Task.insert ctx generated
  Task.read ctx inserted

/-- The tasks of an update. -/
def update (ctx : Context σ) (input : Json) : Act σ Json := do
  let checked ← Act.ofExcept (Task.validate ctx.model.schema ctx.action input)
  let changed ← Task.update ctx checked
  Task.read ctx changed

/-- The tasks of a delete. -/
def delete (ctx : Context σ) (input : Json) : Act σ Json := do
  let checked ← Act.ofExcept (Task.validate ctx.model.schema ctx.action input)
  Task.delete ctx.model.config.softDelete ctx checked

end Steps

namespace Task

theorem filterUnder_eq_ok {ctx : Context σ} {key : String} {input : Json}
    {g : FilterGroup} :
    filterUnder ctx key input = .ok g ↔
      Filter.parse ((input.get? key).getD .null) = .ok (some g) := by
  unfold filterUnder
  rw [bind_eq_ok]
  constructor
  · rintro ⟨_ | g', hparse, h⟩
    · cases h
    · cases h
      exact hparse
  · intro hparse
    exact ⟨some g, hparse, rfl⟩

theorem runFrom_currentTime {world : World} {registry : Registry} {settings : Settings} {m : Model}
    {action : String} (s : Store) :
    (currentTime (Store.context world registry settings m action)).runFrom s =
      (.ok (m.timeAt world), s) := by
  unfold currentTime Model.timeAt
  split
  · next h =>
    replace h : m.config.timestamps = true := h
    rw [if_pos h]
    rfl
  · next h =>
    replace h : ¬m.config.timestamps = true := h
    rw [if_neg h]
    rfl

end Task

theorem Predicate.holds_softDelete (m : Model) (action : String) (input : Json) :
    (Predicate.test "$$.config.softDelete" (.booleanEquals true)).holds input (m.document action) =
      m.config.softDelete := by
  have hresolve : Predicate.resolve "$$.config.softDelete" input (m.document action) =
      some (.bool m.config.softDelete) := by
    rfl
  rw [Predicate.holds, hresolve]
  cases m.config.softDelete <;> rfl

namespace Walk
variable (ctx : Context σ) (traced : Bool) (fuel : Nat) (previous : String) (p : Packet)

theorem follow_create :
    (·.output) <$> follow Graph.create .builtin ctx traced (fuel + 5) previous "CleanInput" p =
      Steps.create ctx p.input := by
  simp only [Steps.create, Steps.prepare, bind_assoc]
  rw [follow_taskTo rfl rfl, map_bind]
  refine bind_congr fun cleaned => ?_
  rw [follow_taskTo rfl rfl, map_bind]
  refine bind_congr fun checked => ?_
  rw [follow_taskTo rfl rfl, map_bind]
  refine bind_congr fun generated => ?_
  rw [follow_taskTo rfl rfl, map_bind]
  refine bind_congr fun inserted => ?_
  rw [follow_taskEnd rfl rfl, map_bind]
  exact bind_pure _

theorem follow_update :
    (·.output) <$> follow Graph.update .builtin ctx traced (fuel + 3) previous "ValidateInput" p =
      Steps.update ctx p.input := by
  rw [follow_taskTo rfl rfl, map_bind, Steps.update]
  refine bind_congr fun checked => ?_
  rw [follow_taskTo rfl rfl, map_bind]
  refine bind_congr fun changed => ?_
  rw [follow_taskEnd rfl rfl, map_bind]
  exact bind_pure _

theorem follow_delete (hcontext : p.context = ctx.document) :
    (·.output) <$> follow Graph.delete .builtin ctx traced (fuel + 3) previous "ValidateInput" p =
      Steps.delete ctx p.input := by
  rw [follow_taskTo rfl rfl, map_bind, Steps.delete]
  refine bind_congr fun checked => ?_
  rw [follow_branch rfl]
  simp only [Packet.advance, Packet.record, hcontext, Context.document,
    Predicate.holds_softDelete]
  cases ctx.model.config.softDelete with
  | true =>
    rw [if_pos rfl, follow_taskEnd rfl rfl, map_bind]
    exact bind_pure _
  | false =>
    rw [if_neg Bool.false_ne_true, follow_taskEnd rfl rfl, map_bind]
    exact bind_pure _

end Walk

namespace Runner

/-- An action that answers is one of a registered model, with an accepted input. -/
theorem accepted_of_execute {σ : Type} {r : Runner σ} {name action : String}
    {input output : Json} {s t : σ}
    (h : (r.execute name action input).runFrom s = (.ok output, t)) :
    ∃ m checked, r.registry.models.get? name = some m ∧
      Input.check (Action.ofName action) r.settings input = .ok checked := by
  obtain ⟨p, s₁, h, -⟩ := Act.runFrom_bind_eq_ok.1 h
  obtain ⟨m, s₂, hm, h⟩ := Act.runFrom_bind_eq_ok.1 h
  obtain ⟨checked, s₃, hchecked, -⟩ := Act.runFrom_bind_eq_ok.1 h
  rw [Act.runFrom_ofExcept, Prod.mk.injEq] at hm hchecked
  exact ⟨m, checked, Registry.get_eq_ok.1 hm.1, hchecked.1⟩

variable (r : Runner σ) {name action : String} {m : Model} {a : Action} {input checked : Json}

/-- A run of an action whose input is accepted follows its graph. -/
theorem runFrom_execute (htasks : r.tasks = Tasks.builtin)
    (hm : r.registry.models.get? name = some m) (ha : Action.ofName action = a) {g : Graph}
    (hgraph : a.graph m = .ok g) (accepted : Input.check a r.settings input = .ok checked) (s : σ) :
    (r.execute name action input).runFrom s =
      ((·.output) <$> Walk.follow g .builtin (r.context m action) r.settings.debugTrace
        (g.states.length + 1 + r.patience) "StartAt" g.start
        { input := checked, context := (r.context m action).document }).runFrom s := by
  have hmodel : r.toEngine.model name = .ok m := Registry.get_eq_ok.2 hm
  have hname : a.name = action := ha ▸ Action.name_ofName action
  rw [execute, bind_pure_comp, run, ha, map_bind, Act.runFrom_ofExcept_bind hmodel, map_bind,
    Act.runFrom_ofExcept_bind accepted, map_bind, Act.runFrom_ofExcept_bind hgraph, drive_eq,
    map_bind, Act.runFrom_ofExcept_bind hmodel, htasks, hname]

theorem runFrom_execute_create (htasks : r.tasks = Tasks.builtin)
    (hm : r.registry.models.get? name = some m)
    (accepted : Input.check .create r.settings input = .ok checked) (s : σ) :
    (r.execute name "create" input).runFrom s =
      (Steps.create (r.context m "create") checked).runFrom s := by
  have hfuel : Graph.create.states.length + 1 + r.patience = r.patience + 1 + 5 := by
    rw [Nat.add_comm]
    rfl
  rw [r.runFrom_execute (a := .create) htasks hm rfl rfl accepted, hfuel]
  exact congrArg (Act.runFrom · s) (Walk.follow_create ..)

theorem runFrom_execute_update (htasks : r.tasks = Tasks.builtin)
    (hm : r.registry.models.get? name = some m)
    (accepted : Input.check .update r.settings input = .ok checked) (s : σ) :
    (r.execute name "update" input).runFrom s =
      (Steps.update (r.context m "update") checked).runFrom s := by
  have hfuel : Graph.update.states.length + 1 + r.patience = r.patience + 1 + 3 := by
    rw [Nat.add_comm]
    rfl
  rw [r.runFrom_execute (a := .update) htasks hm rfl rfl accepted, hfuel]
  exact congrArg (Act.runFrom · s) (Walk.follow_update ..)

theorem runFrom_execute_delete (htasks : r.tasks = Tasks.builtin)
    (hm : r.registry.models.get? name = some m)
    (accepted : Input.check .delete r.settings input = .ok checked) (s : σ) :
    (r.execute name "delete" input).runFrom s =
      (Steps.delete (r.context m "delete") checked).runFrom s := by
  have hfuel : Graph.delete.states.length + 1 + r.patience = r.patience + 2 + 3 := by
    rw [Nat.add_comm]
    rfl
  rw [r.runFrom_execute (a := .delete) htasks hm rfl rfl accepted, hfuel]
  exact congrArg (Act.runFrom · s) (Walk.follow_delete _ _ _ _ _ rfl)

end Runner
end ModelActions
