import ModelActions.Proofs.FollowedWalk
import ModelActions.Proofs.PayloadRows
import ModelActions.Proofs.Sends

/-!
# Guarded operations

Whatever a task sends is an insert, or names a model of the registry and the model's table, and is
restricted to the rows that the model sees. The filter that callers write, the scopes that they name
and the operator's answers have no influence on that.
-/
namespace ModelActions

/-- A select on a model, restricted to the rows that the model sees. -/
inductive Operation.GuardedSelect (registry : Registry) : Operation → Prop
  | select {name : String} {m : Model} {op : Select} {f : Option FilterGroup}
      (registered : registry.models.get? name = some m) (table : op.table = m.table)
      (named : op.model = m.name) (filters : op.filters = m.guard f) :
      GuardedSelect registry (.select op)

/-- An insert, or an operation on a model that is restricted to the rows that the model sees. -/
inductive Operation.Guarded (registry : Registry) : Operation → Prop
  | insert (op : Insert) : Guarded registry (.insert op)
  | select {op : Operation} (h : op.GuardedSelect registry) : Guarded registry op
  | update {name : String} {m : Model} {op : Update} {g : FilterGroup}
      (registered : registry.models.get? name = some m) (table : op.table = m.table)
      (named : op.model = m.name) (conditions : op.conditions = m.guardGroup g) :
      Guarded registry (.update op)
  | delete {name : String} {m : Model} {op : Delete} {g : FilterGroup}
      (registered : registry.models.get? name = some m) (table : op.table = m.table)
      (named : op.model = m.name) (conditions : op.conditions = m.guardGroup g) :
      Guarded registry (.delete op)

/-- Whether the task of a resource writes to a table. -/
def Tasks.writes (resource : String) : Bool :=
  ["database.insert", "database.update", "database.soft_delete",
    "database.hard_delete"].contains resource

/-- Whether no task of a graph writes to a table. -/
def Graph.readsOnly (g : Graph) : Bool :=
  g.states.all fun e =>
    match e.2 with
    | .task t => !Tasks.writes t.resource
    | .choice _ => true

open Act (Sends)
open Operation (GuardedSelect Guarded)

variable {σ : Type} (e : Engine σ)

theorem Engine.sends_model (P : Operation → Prop) (name : String) :
    Sends e.host P (Act.ofExcept (e.model name)) fun m => e.registry.models.get? name = some m :=
  (Sends.ofExcept _).weaken fun _ h => Registry.get_eq_ok.1 h

namespace Pushdown

theorem guardedSelect_keySelect {registry : Registry} {name : String} {related : Model}
    (hrel : registry.models.get? name = some related) (r : Relationship) (leaf : Condition) :
    GuardedSelect registry (.select (keySelect related r leaf)) :=
  .select (f := some (.and [.condition leaf])) hrel rfl rfl rfl

/-- The selects for keys of related rows all satisfy `P`. -/
def KeySelects (registry : Registry) (P : Operation → Prop) : Prop :=
  ∀ {name : String} {related : Model}, registry.models.get? name = some related →
    ∀ r leaf, P (.select (keySelect related r leaf))

section
variable {P : Operation → Prop}

theorem pushPath_sends (sent : KeySelects e.registry P) (op : Comparator) (value : Json)
    (m : Model) (path : List String) :
    Sends e.host P (pushPath e op value m path) fun _ => True := by
  induction path generalizing m with
  | nil => exact .pure trivial
  | cons hop path ih =>
    cases path with
    | nil => exact .pure trivial
    | cons next rest =>
      rw [pushPath]
      split
      · exact .pure trivial
      · refine .bind (.ofExcept _) fun r _ => .bind (e.sends_model _ _) fun related hrel => ?_
        refine .bind (ih related) fun leaf _ => ?_
        exact .bind (.perform (sent hrel r leaf)) fun _ _ => .pure trivial

mutual
theorem push_sends (sent : KeySelects e.registry P) (m : Model) (n : Filter) :
    Sends e.host P (push e m n) fun _ => True := by
  match n with
  | .condition c => exact .bind (pushPath_sends e sent ..) fun _ _ => .pure trivial
  | .group op children => exact .bind (pushAll_sends sent m children) fun _ _ => .pure trivial

theorem pushAll_sends (sent : KeySelects e.registry P) (m : Model) (ns : List Filter) :
    Sends e.host P (pushAll e m ns) fun _ => True := by
  match ns with
  | [] => exact .pure trivial
  | n :: ns =>
    exact .bind (push_sends sent m n) fun _ _ => .bind (pushAll_sends sent m ns) fun _ _ =>
      .pure trivial
end

/-- Pushing down sends selects for keys only. -/
theorem pushGroup_sends_of (sent : KeySelects e.registry P) (m : Model) (g : FilterGroup) :
    Sends e.host P (pushGroup e m g) fun _ => True :=
  .bind (pushAll_sends e sent m g.children) fun _ _ => .pure trivial

theorem resolve_sends (sent : KeySelects e.registry P) (m : Model) (f : Option FilterGroup) :
    Sends e.host P (resolve e m f) fun f' => ∃ f'', f' = m.guard f'' := by
  cases f with
  | none => exact .pure ⟨none, rfl⟩
  | some g => exact .bind (pushGroup_sends_of e sent m g) fun g' _ => .pure ⟨some g', rfl⟩

end

theorem pushGroup_sends (m : Model) (g : FilterGroup) :
    Sends e.host (GuardedSelect e.registry) (pushGroup e m g) fun _ => True :=
  pushGroup_sends_of e guardedSelect_keySelect m g

theorem resolveGroup_sends (m : Model) (g : FilterGroup) :
    Sends e.host (GuardedSelect e.registry) (resolveGroup e m g) fun f =>
      ∃ g', f = m.guardGroup g' :=
  .bind (pushGroup_sends e m g) fun g' _ => .pure ⟨g', rfl⟩

theorem resolveGroup_guarded (m : Model) (g : FilterGroup) :
    Sends e.host (Guarded e.registry) (resolveGroup e m g) fun f => ∃ g', f = m.guardGroup g' :=
  (resolveGroup_sends e m g).mono fun _ => Guarded.select

end Pushdown

namespace Expansion

theorem guardedSelect_relatedSelect {registry : Registry} {name : String} {related : Model}
    (hrel : registry.models.get? name = some related) (r : Relationship) (keys : List Json)
    (rest : List String) :
    GuardedSelect registry (.select (relatedSelect related r keys rest)) :=
  .select (f := some (.leaf r.target .in (.arr keys))) hrel rfl rfl rfl

section
variable {P : Operation → Prop}
  (sent : ∀ {name hop name' : String} {m related : Model} {r : Relationship},
    e.registry.models.get? name = some m → m.relationships.get? hop = some r →
    e.registry.models.get? name' = some related →
    ∀ keys rest, P (.select (relatedSelect related r keys rest)))
include sent

theorem expandHop_sends {fetch : Model → Select → Act σ Selection}
    (hfetch : ∀ {name m} op, e.registry.models.get? name = some m → P (.select op) →
      Sends e.host P (fetch m op) fun _ => True)
    {name : String} {m : Model} (hm : e.registry.models.get? name = some m) (rows : List Json)
    (group : String × List String) :
    Sends e.host P (expandHop e fetch m rows group) fun _ => True := by
  refine .bind (.ofExcept _) fun r hr => .bind (e.sends_model _ _) fun related hrel => ?_
  dsimp only
  split
  · exact .pure trivial
  · have hop := sent hm (Model.relationship_eq_ok.1 hr) hrel (Pushdown.keysOf r.source rows) group.2
    exact .bind (hfetch _ hrel hop) fun _ _ => .pure trivial

theorem expandGroups_sends {fetch : Model → Select → Act σ Selection}
    (hfetch : ∀ {name m} op, e.registry.models.get? name = some m → P (.select op) →
      Sends e.host P (fetch m op) fun _ => True)
    {name : String} {m : Model} (hm : e.registry.models.get? name = some m)
    (groups : List (String × List String)) (rows : List Json) :
    Sends e.host P (expandGroups e fetch m groups rows) fun _ => True := by
  induction groups generalizing rows with
  | nil => exact .pure trivial
  | cons g gs ih => exact .bind (expandHop_sends e sent hfetch hm rows g) fun rows' _ => ih rows'

/-- Whatever the operator echoes, expansion sends selects for related rows only. -/
theorem fetch_sends (hops : Nat) {name : String} {m : Model}
    (hm : e.registry.models.get? name = some m) (op : Select) (hop : P (.select op)) :
    Sends e.host P (fetch e hops m op) fun _ => True := by
  induction hops generalizing name m op with
  | zero =>
    refine .bind (.perform hop) fun answer _ => .bind (.ofExcept _) fun selection _ => ?_
    split
    · exact .pure trivial
    · exact .throw _
  | succ hops ih =>
    refine .bind (.perform hop) fun answer _ => .bind (.ofExcept _) fun selection _ => ?_
    split
    · exact .pure trivial
    · exact .bind (expandGroups_sends e sent (fun op hm => ih hm op) hm _ _) fun _ _ =>
        .pure trivial

end

end Expansion

namespace Query

section
variable {P : Operation → Prop} (keySelects : Pushdown.KeySelects e.registry P)
include keySelects

theorem build_sends_of (m : Model) (request : Request) :
    Sends e.host P (build e m request) fun op =>
      op.table = m.table ∧ op.model = m.name ∧ op.expand = request.expand ∧
        op.sorts = request.sorts ∧
        op.pagination = request.pagination.map (·.complete e.settings.defaultPerPage) ∧
        ∃ f, op.filters = m.guard f := by
  refine .bind (.ofExcept _) fun written _ => .bind (.ofExcept _) fun named _ => ?_
  refine .bind (Pushdown.resolve_sends e keySelects m _) fun filters hf => ?_
  refine .bind (.ofExcept _) fun _ _ => .bind (.ofExcept _) fun joins _ => ?_
  exact .pure ⟨rfl, rfl, rfl, rfl, rfl, hf⟩

/-- Besides its own select, a select sends selects for keys and for related rows only. -/
theorem select_sends_of
    (relatedSelects : ∀ {name hop name' : String} {m related : Model} {r : Relationship},
      e.registry.models.get? name = some m → m.relationships.get? hop = some r →
      e.registry.models.get? name' = some related →
      ∀ keys rest, P (.select (Expansion.relatedSelect related r keys rest)))
    {model : String} {request : Request}
    (sent : ∀ {m : Model} {op : Select} {f : Option FilterGroup},
      e.registry.models.get? model = some m → op.table = m.table → op.model = m.name →
      op.pagination = request.pagination.map (·.complete e.settings.defaultPerPage) →
      op.filters = m.guard f → P (.select op)) :
    Sends e.host P (select e model request) fun _ => True := by
  refine .bind (e.sends_model _ _) fun m hm => ?_
  refine .bind (build_sends_of e keySelects m request) fun op hop => ?_
  obtain ⟨table, named, -, -, pagination, f, filters⟩ := hop
  exact Expansion.fetch_sends e relatedSelects _ hm op (sent hm table named pagination filters)

end

theorem build_sends (m : Model) (request : Request) :
    Sends e.host (GuardedSelect e.registry) (build e m request) fun op =>
      op.table = m.table ∧ op.model = m.name ∧ op.expand = request.expand ∧
        op.sorts = request.sorts ∧
        op.pagination = request.pagination.map (·.complete e.settings.defaultPerPage) ∧
        ∃ f, op.filters = m.guard f :=
  build_sends_of e Pushdown.guardedSelect_keySelect m request

theorem select_sends (model : String) (request : Request) :
    Sends e.host (GuardedSelect e.registry) (select e model request) fun _ => True :=
  select_sends_of e Pushdown.guardedSelect_keySelect
    (fun _ _ hrel => Expansion.guardedSelect_relatedSelect hrel _)
    fun hm table named _ filters => .select hm table named filters

end Query

theorem Tasks.get_eq_ok {tasks : Tasks σ} {resource : String} {handler : Handler σ} :
    tasks.get resource = .ok handler ↔ tasks.handler? resource = some handler := by
  unfold Tasks.get
  cases tasks.handler? resource <;> simp

namespace Task
variable (ctx : Context σ)

theorem currentTime_sends (P : Operation → Prop) :
    Sends ctx.host P (currentTime ctx) fun _ => True := by
  unfold currentTime
  split
  · exact Sends.readClock.map fun _ _ => trivial
  · exact .pure trivial

/-- A row with a key of its own, if it lacks one, and with times. -/
def fill (m : Model) (now : Option String) (key : String) (row : Row) : Row :=
  stamp now (if needsKey m row then row.insert m.primaryKey (.str key) else row)

theorem generateRow_sends (P : Operation → Prop) (now : Option String) (row : Row) :
    Sends ctx.host P
      (if needsKey ctx.model row then do
        let key ← ctx.host.drawKey
        return stamp now (row.insert ctx.model.primaryKey (.str key))
      else return stamp now row : Act σ Row)
      fun row' => ∃ key, row' = fill ctx.model now key row := by
  split
  · next hneeds =>
    refine .bind .drawKey fun key _ => .pure ⟨key, ?_⟩
    rw [fill, if_pos hneeds]
  · next hneeds =>
    refine .pure ⟨"", ?_⟩
    rw [fill, if_neg hneeds]

/-- Generating goes row by row, with one time for all rows. -/
theorem generate_sends (P : Operation → Prop) (input : Json) :
    Sends ctx.host P (generate ctx input) fun output => ∃ now,
      Reworks (fun row row' => ∃ key, row' = fill ctx.model now key row) input output := by
  refine .bind (currentTime_sends ctx P) fun now _ => ?_
  have hrows := mapRows_sends (fun _ row => generateRow_sends ctx P now row) input
  exact hrows.weaken fun output houtput => ⟨now, houtput⟩

/-- A read sends what the selects for its input, as a request, or for its keys send. -/
theorem read_sends_of {P : Operation → Prop} (input : Json)
    (hrequest : isRequest ctx.model input = true → ∀ {request}, Request.ofJson input = .ok request →
      ∀ pagination, Sends ctx.host P
        (Query.select ctx.toEngine ctx.model.name { request with pagination }) fun _ => True)
    (hkey : ∀ op value, Sends ctx.host P
      (Query.select ctx.toEngine ctx.model.name (keyRequest ⟨ctx.model.primaryKey, op, value⟩))
      fun _ => True) :
    Sends ctx.host P (read ctx input) fun _ => True := by
  unfold read
  dsimp only
  split
  · next h =>
    exact .bind (.ofExcept _) fun _ hr => .bind (hrequest h hr _) fun _ _ => .pure trivial
  · split
    · split
      · exact .pure trivial
      · exact .pure trivial
      · exact .bind (hkey _ _) fun _ _ => .pure trivial
    · split
      · exact .pure trivial
      · exact .bind (hkey _ _) fun _ _ => .pure trivial
    · exact .pure trivial
    · exact .throw _

theorem read_sends (input : Json) :
    Sends ctx.host (GuardedSelect ctx.registry) (read ctx input) fun _ => True :=
  read_sends_of ctx input (fun _ _ _ _ => Query.select_sends _ _ _)
    fun _ _ => Query.select_sends _ _ _

theorem select_sends (paged : Bool) (input : Json) :
    Sends ctx.host (GuardedSelect ctx.registry) (select paged ctx input) fun _ => True :=
  .bind (.ofExcept _) fun _ _ => .bind (Query.select_sends _ _ _) fun _ _ => .pure trivial

theorem insert_sends (input : Json) :
    Sends ctx.host (Guarded ctx.registry) (insert ctx input) fun _ => True :=
  .bind (.ofExcept _) fun _ _ => .bind (.ofExcept _) fun op _ =>
    .bind (.perform (.insert op)) fun _ _ => .pure trivial

section
variable {P : Operation → Prop} {Q : FilterGroup → Prop} {input : Json}
  (hresolve : ∀ {g}, filterUnder ctx "conditions" input = .ok g →
    Sends ctx.host P (Pushdown.resolveGroup ctx.toEngine ctx.model g) Q)
include hresolve

theorem update_sends_of
    (sent : ∀ {conditions} data, Q conditions →
      P (.update ⟨ctx.model.table, ctx.model.name, data, conditions⟩)) :
    Sends ctx.host P (update ctx input) fun output => output.isArray = true := by
  refine .bind (.ofExcept _) fun data _ => .bind (currentTime_sends ctx _) fun now _ => ?_
  refine .bind (.ofExcept _) fun g hg => .bind (hresolve hg) fun conditions hconditions => ?_
  exact .bind (.perform (sent _ hconditions)) fun _ _ => .pure rfl

theorem delete_sends_of (soft : Bool)
    (sent : ∀ {conditions}, Q conditions →
      P (.delete ⟨ctx.model.table, ctx.model.name, conditions, soft⟩)) :
    Sends ctx.host P (delete soft ctx input) fun _ => True := by
  refine .bind (.ofExcept _) fun g hg => .bind (hresolve hg) fun conditions hconditions => ?_
  exact .bind (.perform (sent hconditions)) fun _ _ => .pure trivial

end

variable {name : String} (hm : ctx.registry.models.get? name = some ctx.model)
include hm

theorem update_sends (input : Json) :
    Sends ctx.host (Guarded ctx.registry) (update ctx input) fun _ => True :=
  (update_sends_of ctx (fun _ => Pushdown.resolveGroup_guarded ctx.toEngine ctx.model _)
    fun _ h => .update hm rfl rfl h.choose_spec).weaken fun _ _ => trivial

theorem delete_sends (soft : Bool) (input : Json) :
    Sends ctx.host (Guarded ctx.registry) (delete soft ctx input) fun _ => True :=
  delete_sends_of ctx (fun _ => Pushdown.resolveGroup_guarded ctx.toEngine ctx.model _) soft
    fun h => .delete hm rfl rfl h.choose_spec

omit hm in
/-- The tasks that do not write send guarded selects only. -/
theorem reading_sends {resource : String} {handler : Handler σ}
    (h : Tasks.builtin.get resource = .ok handler) (reads : Tasks.writes resource = false)
    (input : Json) :
    Sends ctx.host (GuardedSelect ctx.registry) (handler ctx input) fun _ => True := by
  have checked (r : Except Error Json) :
      Sends ctx.host (GuardedSelect ctx.registry) (Act.ofExcept r) fun _ => True :=
    (Sends.ofExcept r).weaken fun _ _ => trivial
  replace h : Tasks.builtinHandler? resource = some handler := Tasks.get_eq_ok.1 h
  unfold Tasks.builtinHandler? at h
  split at h <;> cases h
  · exact checked _
  · exact checked _
  · exact (generate_sends ctx _ input).weaken fun _ _ => trivial
  · exact .pure trivial
  · exact checked _
  · exact .throw _
  · exact absurd reads (by decide)
  · exact read_sends ctx input
  · exact select_sends ctx false input
  · exact select_sends ctx true input
  · exact absurd reads (by decide)
  · exact absurd reads (by decide)
  · exact absurd reads (by decide)

/-- The built-in tasks send guarded operations only. -/
theorem builtin_sends {resource : String} {handler : Handler σ}
    (h : Tasks.builtin.get resource = .ok handler) (input : Json) :
    Sends ctx.host (Guarded ctx.registry) (handler ctx input) fun _ => True := by
  cases writes : Tasks.writes resource with
  | false => exact (reading_sends ctx h writes input).mono fun _ => Guarded.select
  | true =>
    simp only [Tasks.writes, List.contains_iff_mem, List.mem_cons, List.not_mem_nil,
      or_false] at writes
    rcases writes with rfl | rfl | rfl | rfl <;> cases h
    · exact insert_sends ctx input
    · exact update_sends ctx hm input
    · exact delete_sends ctx hm true input
    · exact delete_sends ctx hm false input

end Task

theorem Graph.writes_eq_false {g : Graph} (reads : g.readsOnly = true) {name : String}
    {t : TaskState} (h : g.states.get? name = some (.task t)) :
    Tasks.writes t.resource = false := by
  have hstate := List.all_eq_true.1 reads _ (Members.mem_of_get? h)
  simpa using hstate

namespace Walk
variable {tasks : Tasks σ} {ctx : Context σ} {P : Operation → Prop}

theorem enter_sends {state : State} (htask : ∀ {t handler}, state = .task t →
      tasks.get t.resource = .ok handler →
      ∀ input, Sends ctx.host P (handler ctx input) fun _ => True)
    (name : String) (p : Packet) :
    Sends ctx.host P (enter tasks ctx name state p) fun _ => True := by
  cases state with
  | task t =>
    refine .bind (.ofExcept _) fun handler h => .bind (htask rfl h p.input) fun _ _ => ?_
    exact .bind (.ofExcept _) fun _ _ => .pure trivial
  | choice c =>
    simp only [enter]
    cases c.target? p.input p.context with
    | some next => exact .pure trivial
    | none => exact .throw _

/-- A walk sends what the tasks of its graph send. -/
theorem follow_sends {g : Graph} (htasks : ∀ {name t handler},
      g.states.get? name = some (.task t) → tasks.get t.resource = .ok handler →
      ∀ input, Sends ctx.host P (handler ctx input) fun _ => True)
    (traced : Bool) (fuel : Nat) (previous current : String) (p : Packet) :
    Sends ctx.host P (follow g tasks ctx traced fuel previous current p) fun _ => True := by
  induction fuel generalizing previous current p with
  | zero => exact .throw _
  | succ fuel ih =>
    simp only [follow]
    cases hstate : g.states.get? current with
    | none => exact .throw _
    | some state =>
      have htask {t : TaskState} (ht : state = .task t) :
          g.states.get? current = some (.task t) := ht ▸ hstate
      refine .bind (enter_sends (fun ht => htasks (htask ht)) current p) fun next _ => ?_
      rcases next with ⟨q, _ | next⟩
      · exact .pure trivial
      · exact ih current next _

end Walk

namespace Runner

/-- A run of any graph on any model sends guarded operations only. -/
theorem drive_sends (r : Runner σ) (htasks : r.tasks = Tasks.builtin) (model action : String)
    (g : Graph) (input : Json) :
    Sends r.host (Guarded r.registry) (r.drive model action g input) fun _ => True := by
  rw [drive_eq, htasks]
  refine .bind (r.toEngine.sends_model _ model) fun m hm => ?_
  exact Walk.follow_sends (fun _ h => Task.builtin_sends (r.context m action) hm h) ..

/-- A run of a graph that does not write sends guarded selects only. -/
theorem drive_reads (r : Runner σ) (htasks : r.tasks = Tasks.builtin) (model action : String)
    {g : Graph} (reads : g.readsOnly = true) (input : Json) :
    Sends r.host (GuardedSelect r.registry) (r.drive model action g input) fun _ => True := by
  rw [drive_eq, htasks]
  refine .bind (.ofExcept _) fun m _ => ?_
  exact Walk.follow_sends (fun hstate h => Task.reading_sends (r.context m action) h
    (Graph.writes_eq_false reads hstate)) ..

theorem run_sends (r : Runner σ) (htasks : r.tasks = Tasks.builtin) (model action : String)
    (input : Json) :
    Sends r.host (Guarded r.registry) (r.run model action input) fun _ => True := by
  refine .bind (r.toEngine.sends_model _ model) fun m _ => .bind (.ofExcept _) fun input _ => ?_
  exact .bind (.ofExcept _) fun g _ => r.drive_sends htasks _ _ _ _

/-- Reading one row or many sends guarded selects only. -/
theorem run_reads (r : Runner σ) (htasks : r.tasks = Tasks.builtin) (model : String)
    {action : String} (reads : Action.ofName action = .readOne ∨ Action.ofName action = .readList)
    (input : Json) :
    Sends r.host (GuardedSelect r.registry) (r.run model action input) fun _ => True := by
  refine .bind (.ofExcept _) fun m _ => .bind (.ofExcept _) fun input _ => ?_
  refine .bind (.ofExcept _) fun g hg => ?_
  have hgraph : g.readsOnly = true := by
    rcases reads with ha | ha <;> rw [ha] at hg <;> cases hg <;> decide
  exact r.drive_reads htasks _ _ hgraph _

end Runner
end ModelActions
