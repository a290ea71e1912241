import ModelActions.Proofs.FoundModels
import ModelActions.Proofs.Recordings

/-!
# Runs that find their models

The built-in tasks look models up in queries only. So in a closed registry no run of a graph of
theirs, on a model of the registry, fails because a model is unknown.
-/
namespace ModelActions
variable {σ : Type}

theorem Insert.found_make (table model : String) (payload : Payload) :
    Found (fun _ => True) (make table model payload) := by
  unfold make
  split
  · trivial
  · simp
  · split <;> simp

namespace Task

theorem found_mapItems {f : Option Nat → Row → Except Error Row}
    (hf : ∀ i row, Found (fun _ => True) (f i row)) (i : Nat) (items : List Json) :
    Found (fun _ => True) (mapItems f i items) := by
  induction items generalizing i with
  | nil => trivial
  | cons item items ih =>
    cases item with
    | obj row => exact (hf _ row).bind fun _ _ => (ih (i + 1)).bind fun _ _ => trivial
    | _ => exact rfl

theorem found_mapRows {f : Option Nat → Row → Except Error Row}
    (hf : ∀ i row, Found (fun _ => True) (f i row)) (input : Json) :
    Found (fun _ => True) (mapRows f input) := by
  cases input with
  | obj row => exact (hf none row).bind fun _ _ => trivial
  | arr items => exact (found_mapItems hf 0 items).bind fun _ _ => trivial
  | _ => exact rfl

theorem mapItems_finds {f : Option Nat → Row → Act σ Row}
    (hf : ∀ i row, (f i row).Finds fun _ => True) (i : Nat) (items : List Json) :
    (mapItems f i items).Finds fun _ => True := by
  induction items generalizing i with
  | nil => exact .pure trivial
  | cons item items ih =>
    cases item with
    | obj row => exact .bind (hf _ row) fun _ _ => .bind (ih (i + 1)) fun _ _ => .pure trivial
    | _ => exact .throw rfl

theorem mapRows_finds {f : Option Nat → Row → Act σ Row}
    (hf : ∀ i row, (f i row).Finds fun _ => True) (input : Json) :
    (mapRows f input).Finds fun _ => True := by
  cases input with
  | obj row => exact .bind (hf none row) fun _ _ => .pure trivial
  | arr items => exact .bind (mapItems_finds hf 0 items) fun _ _ => .pure trivial
  | _ => exact .throw rfl

theorem found_clean (schema : Members AttributeType) (input : Json) :
    Found (fun _ => True) (clean schema input) := by
  unfold clean
  split
  · trivial
  · refine found_mapRows (fun _ row => ?_) input
    trivial

theorem found_checkTypes (schema : Members AttributeType) (place : String) (row : Row) :
    Found (fun _ => True) (checkTypes schema place row) := by
  induction row with
  | nil => trivial
  | cons e row ih =>
    rw [checkTypes]
    split
    · split
      · exact ih
      · simp
    · exact ih

theorem found_validate (schema : Members AttributeType) (action : String) (input : Json) :
    Found (fun _ => True) (validate schema action input) := by
  unfold validate
  split
  · refine found_mapRows (fun _ row => ?_) input
    exact (found_checkTypes schema _ row).bind fun _ _ => trivial
  · split
    · exact (found_checkTypes schema _ _).bind fun _ _ => trivial
    · trivial
  · trivial

theorem found_asRow (place : String) (j : Json) : Found (fun _ => True) (asRow place j) := by
  unfold asRow
  split <;> simp

theorem found_asRows (i : Nat) (items : List Json) : Found (fun _ => True) (asRows i items) := by
  induction items generalizing i with
  | nil => trivial
  | cons item items ih =>
    exact (found_asRow _ item).bind fun _ _ => (ih (i + 1)).bind fun _ _ => trivial

theorem found_payloadOf (input : Json) : Found (fun _ => True) (payloadOf input) := by
  unfold payloadOf
  split
  · trivial
  · exact (found_asRows 0 _).bind fun _ _ => trivial
  · simp

theorem found_summarizeJson (input : Json) : Found (fun _ => True) (summarizeJson input) := by
  unfold summarizeJson
  split <;> simp

section
variable (ctx : Context σ) (input : Json)

theorem found_filterUnder (key : String) : Found (fun _ => True) (filterUnder ctx key input) := by
  refine (Filter.found_parse _).bind fun parsed _ => ?_
  cases parsed with
  | none => exact rfl
  | some g => trivial

theorem currentTime_finds : (currentTime ctx).Finds fun _ => True := by
  unfold currentTime
  split
  · exact Act.Finds.readClock.map fun _ _ => trivial
  · exact .pure trivial

theorem generate_finds : (generate ctx input).Finds fun _ => True := by
  refine .bind (currentTime_finds ctx) fun now _ => mapRows_finds (fun _ row => ?_) input
  split
  · exact .bind .drawKey fun _ _ => .pure trivial
  · exact .pure trivial

theorem insert_finds : (insert ctx input).Finds fun _ => True := by
  refine .bind (.ofExcept (found_payloadOf input)) fun payload _ => ?_
  refine .bind (.ofExcept (Insert.found_make _ _ payload)) fun op _ => ?_
  exact .bind (.perform _) fun _ _ => .pure trivial

end

section
variable (ctx : Context σ) (closed : ctx.registry.Closed)
  (hm : ctx.registry.models.get? ctx.model.name = some ctx.model) (input : Json)
include closed hm

theorem read_finds : (read ctx input).Finds fun _ => True := by
  have hselect (request : Request) :
      (Query.select ctx.toEngine ctx.model.name request).Finds fun _ => True :=
    Query.select_finds closed hm request
  unfold read
  dsimp only
  split
  · refine .bind (.ofExcept (Request.found_ofJson input)) fun request _ => ?_
    exact .bind (hselect _) fun _ _ => .pure trivial
  · split
    · split
      · exact .pure trivial
      · exact .pure trivial
      · exact .bind (hselect _) fun _ _ => .pure trivial
    · split
      · exact .pure trivial
      · exact .bind (hselect _) fun _ _ => .pure trivial
    · exact .pure trivial
    · exact .throw rfl

theorem select_finds (paged : Bool) : (select paged ctx input).Finds fun _ => True := by
  refine .bind (.ofExcept (Request.found_ofJson input)) fun request _ => ?_
  exact .bind (Query.select_finds closed hm _) fun _ _ => .pure trivial

theorem update_finds : (update ctx input).Finds fun _ => True := by
  refine .bind (.ofExcept (found_asRow _ _)) fun data _ => ?_
  refine .bind (currentTime_finds ctx) fun now _ => ?_
  refine .bind (.ofExcept (found_filterUnder ctx input _)) fun g _ => ?_
  refine .bind (Pushdown.resolveGroup_finds closed hm g) fun conditions _ => ?_
  exact .bind (.perform _) fun _ _ => .pure trivial

theorem delete_finds (soft : Bool) : (delete soft ctx input).Finds fun _ => True := by
  refine .bind (.ofExcept (found_filterUnder ctx input _)) fun g _ => ?_
  refine .bind (Pushdown.resolveGroup_finds closed hm g) fun conditions _ => ?_
  exact .bind (.perform _) fun _ _ => .pure trivial

/-- The built-in tasks find every model that they look up. -/
theorem builtin_finds {resource : String} {handler : Handler σ}
    (h : Tasks.builtin.handler? resource = some handler) :
    (handler ctx input).Finds fun _ => True := by
  replace h : Tasks.builtinHandler? resource = some handler := h
  unfold Tasks.builtinHandler? at h
  split at h <;> cases h
  · exact .ofExcept (found_clean _ input)
  · exact .ofExcept (found_validate _ _ input)
  · exact generate_finds ctx input
  · exact .pure trivial
  · exact .ofExcept (found_summarizeJson input)
  · exact .throw rfl
  · exact insert_finds ctx input
  · exact read_finds ctx closed hm input
  · exact select_finds ctx closed hm input false
  · exact select_finds ctx closed hm input true
  · exact update_finds ctx closed hm input
  · exact delete_finds ctx closed hm input true
  · exact delete_finds ctx closed hm input false

end
end Task

/-! ## Walks -/

/-- The tasks of the graph are the built-in ones. -/
def Graph.BuiltIn (g : Graph) (tasks : Tasks σ) : Prop :=
  ∀ {name t}, g.states.get? name = some (.task t) →
    tasks.handler? t.resource = Tasks.builtin.handler? t.resource

namespace Walk
variable {g : Graph} {tasks : Tasks σ} {ctx : Context σ}

theorem enter_finds {state : State} (htask : ∀ {t handler}, state = .task t →
      tasks.get t.resource = .ok handler → ∀ input, (handler ctx input).Finds fun _ => True)
    (name : String) (p : Packet) : (enter tasks ctx name state p).Finds fun _ => True := by
  cases state with
  | task t =>
    have hget : Found (fun handler => tasks.get t.resource = .ok handler)
        (tasks.get t.resource) := by
      unfold Tasks.get
      split <;> simp
    have hexit : Found (fun _ => True) (taskExit name t) := by
      unfold taskExit
      split
      · trivial
      · split <;> simp
    refine .bind (.ofExcept hget) fun handler h => .bind (htask rfl h p.input) fun output _ => ?_
    exact .bind (.ofExcept hexit) fun _ _ => .pure trivial
  | choice c =>
    simp only [enter]
    cases c.target? p.input p.context with
    | some next => exact .pure trivial
    | none => exact .throw rfl

/-- On a model of a closed registry, a walk through a graph of built-in tasks finds every model that
it looks up. -/
theorem follow_finds (closed : ctx.registry.Closed)
    (hm : ctx.registry.models.get? ctx.model.name = some ctx.model) (builtIn : g.BuiltIn tasks)
    (traced : Bool) (fuel : Nat) (previous current : String) (p : Packet) :
    (follow g tasks ctx traced fuel previous current p).Finds fun _ => True := by
  induction fuel generalizing previous current p with
  | zero => exact .throw rfl
  | succ fuel ih =>
    simp only [follow]
    cases hstate : g.states.get? current with
    | none => exact .throw rfl
    | some state =>
      have htask {t : TaskState} {handler : Handler σ} (ht : state = .task t)
          (hget : tasks.get t.resource = .ok handler) (input : Json) :
          (handler ctx input).Finds fun _ => True := by
        subst ht
        have hhandler := (builtIn hstate).symm.trans (Tasks.get_eq_ok.1 hget)
        exact Task.builtin_finds ctx closed hm input hhandler
      refine .bind (enter_finds htask current p) fun next _ => ?_
      rcases next with ⟨q, _ | next⟩
      · exact .pure trivial
      · exact ih current next _

end Walk

/-! ## Checks before a run -/

namespace Graph
variable (g : Graph) (known : String → Bool)

theorem found_checkTarget (state target : String) :
    Found (fun _ => True) (g.checkTarget state target) := by
  unfold checkTarget
  split <;> simp

theorem found_checkRules (state : String) (rules : List ChoiceRule) :
    Found (fun _ => True) (g.checkRules state rules) := by
  induction rules with
  | nil => trivial
  | cons r rules ih => exact (g.found_checkTarget state r.next).bind fun _ _ => ih

theorem found_checkState (name : String) (state : State) :
    Found (fun _ => True) (g.checkState known name state) := by
  cases state with
  | task t =>
    have hknown : Found (fun _ => True)
        (if known t.resource then .ok () else .error (.unknownTask t.resource) :
          Except Error Unit) := by
      split <;> simp
    simp only [checkState]
    split
    · exact rfl
    · exact (g.found_checkTarget name _).bind fun _ _ => hknown
    · exact hknown
    · exact rfl
  | choice c =>
    simp only [checkState]
    split
    · exact rfl
    · refine (g.found_checkRules name c.rules).bind fun _ _ => ?_
      split
      · exact g.found_checkTarget name _
      · trivial

theorem found_checkStates (states : List (String × State)) :
    Found (fun _ => True) (g.checkStates known states) := by
  induction states with
  | nil => trivial
  | cons e states ih => exact (g.found_checkState known e.1 e.2).bind fun _ _ => ih

theorem found_check : Found (fun _ => True) (g.check known) := by
  unfold check
  split
  · exact rfl
  · exact g.found_checkStates known g.states

end Graph

theorem Action.found_graph (m : Model) (a : Action) : Found (fun _ => True) (a.graph m) := by
  cases a with
  | custom name =>
    unfold graph
    dsimp only
    split <;> simp
  | _ => trivial

namespace Input
variable (settings : Settings)

theorem found_canonicalFilter (key : String) (input : Members Json) :
    Found (fun _ => True) (canonicalFilter key input) := by
  unfold canonicalFilter
  split
  · trivial
  · refine ((Filter.found_parse _).mapField (placeUnder key)).bind fun parsed _ => ?_
    cases parsed <;> trivial

theorem found_checkPaths (i : Nat) (paths : List Json) :
    Found (fun _ => True) (checkPaths settings i paths) := by
  induction paths generalizing i with
  | nil => trivial
  | cons path paths ih =>
    cases path with
    | str path =>
      rw [checkPaths]
      split
      · exact rfl
      · exact ih (i + 1)
    | _ => exact rfl

theorem found_checkExpand (input : Members Json) :
    Found (fun _ => True) (checkExpand settings input) := by
  unfold checkExpand
  split
  · trivial
  · exact found_checkPaths settings 0 _
  · simp

theorem found_checkCount (pagination : Members Json) (key : String) (limit : Option Nat) :
    Found (fun _ => True) (checkCount pagination key limit) := by
  unfold checkCount
  split
  · trivial
  · trivial
  · split
    · exact rfl
    · exact rfl
    · split
      · split <;> simp
      · trivial

theorem found_checkPagination (input : Members Json) :
    Found (fun _ => True) (checkPagination settings input) := by
  unfold checkPagination
  split
  · trivial
  · trivial
  · exact (found_checkCount _ _ _).bind fun _ _ => found_checkCount _ _ _
  · simp

theorem found_canonicalSort (place : String) (j : Json) :
    Found (fun _ => True) (canonicalSort place j) := by
  unfold canonicalSort
  split
  · split
    · exact rfl
    · exact rfl
    · split <;> simp
  · simp

theorem found_canonicalSortList (i : Nat) (items : List Json) :
    Found (fun _ => True) (canonicalSortList i items) := by
  induction items generalizing i with
  | nil => trivial
  | cons j js ih =>
    exact (found_canonicalSort _ j).bind fun _ _ => (ih (i + 1)).bind fun _ _ => trivial

theorem found_canonicalSorts (input : Members Json) :
    Found (fun _ => True) (canonicalSorts input) := by
  unfold canonicalSorts
  split
  · trivial
  · exact (found_canonicalSortList 0 _).bind fun _ _ => trivial
  · simp

theorem found_membersOf (action : Action) (input : Json) :
    Found (fun _ => True) (membersOf action input) := by
  unfold membersOf
  split <;> simp

theorem found_require (action : Action) (input : Members Json) (key : String) :
    Found (fun _ => True) (require action input key) := by
  unfold require
  split <;> simp

theorem found_checkRows (input : Json) : Found (fun _ => True) (checkRows input) := by
  unfold checkRows
  split
  · simp
  · split
    · split <;> simp
    · trivial

theorem found_check (action : Action) (input : Json) :
    Found (fun _ => True) (check action settings input) := by
  cases action with
  | create => exact (found_checkRows input).bind fun _ _ => trivial
  | update =>
    refine (found_membersOf _ input).bind fun members _ => ?_
    refine (found_require _ members _).bind fun _ _ => ?_
    dsimp only
    split
    · exact (found_canonicalFilter _ members).bind fun _ _ => trivial
    · exact rfl
  | delete =>
    refine (found_membersOf _ input).bind fun members _ => ?_
    refine (found_require _ members _).bind fun _ _ => ?_
    exact (found_canonicalFilter _ members).bind fun _ _ => trivial
  | readOne =>
    refine (found_membersOf _ input).bind fun members _ => ?_
    refine (found_require _ members _).bind fun _ _ => ?_
    refine (found_canonicalFilter _ members).bind fun members _ => ?_
    exact (found_checkExpand settings members).bind fun _ _ => trivial
  | readList =>
    refine (found_membersOf _ input).bind fun members _ => ?_
    refine (found_checkPagination settings members).bind fun _ _ => ?_
    refine (found_canonicalSorts members).bind fun members _ => ?_
    refine (found_checkExpand settings members).bind fun _ _ => ?_
    exact (found_canonicalFilter _ members).bind fun _ _ => trivial
  | custom => trivial

end Input

/-! ## Calls -/

/-- The model that a call is about. -/
def Call.model : Call → String
  | .action model _ _ => model
  | .graph model _ _ => model

namespace Runner
variable (r : Runner σ) {call : Call} {m : Model}
  (hm : r.registry.models.get? call.model = some m)
include hm

/-- A call on a model of the registry starts with that model. -/
theorem found_start :
    Found (fun start => r.registry.models.get? call.model = some start.model) (r.start call) := by
  cases call with
  | action model action input =>
    refine (Registry.found_get hm).bind fun m' hm' => ?_
    refine (Input.found_check r.settings _ input).bind fun checked _ => ?_
    exact (Action.found_graph m' _).bind fun g _ => hm'
  | graph model g input =>
    have hstart : Found (fun start : Start => r.registry.models.get? model = some start.model)
        (do return ⟨← r.toEngine.model model, g.comment.getD "graph", g, input⟩) :=
      (Registry.found_get hm).bind fun m' hm' => hm'
    unfold start
    dsimp only
    split
    · exact (g.found_check r.tasks.has).bind fun _ _ => hstart
    · exact hstart

/-- A call on a model of a closed registry finds every model that it looks up. -/
theorem answer_finds (closed : r.registry.Closed)
    (builtIn : ∀ start, r.start call = .ok start → start.graph.BuiltIn r.tasks) :
    (r.answer call).Finds fun _ => True := by
  intro s
  have hfound := r.found_start hm
  rw [runFrom_answer]
  cases hstart : r.start call with
  | error e =>
    rw [hstart] at hfound
    exact hfound
  | ok start =>
    rw [hstart] at hfound
    dsimp only
    rw [walkOf, Walk.run, ← Walk.runFrom_follow]
    exact Walk.follow_finds closed (closed.get?_name hfound) (builtIn start hstart) _ _ _ _ _ s

end Runner

/-- A registry that was read is closed, whatever names its specifications repeat. So no call on one
of its models whose graph is made of the built-in tasks fails because a model is unknown, whatever
the operator answers. -/
theorem Registry.closed_and_found {specs : List ModelSpec} {registry : Registry}
    (loaded : ofSpecs specs = .ok registry) :
    registry.Closed ∧
      ∀ {σ : Type} (r : Runner σ) (call : Call) {m : Model}, r.registry = registry →
        registry.models.get? call.model = some m →
        (∀ start, r.start call = .ok start → start.graph.BuiltIn r.tasks) →
        ∀ s name, ((r.answer call).runFrom s).1 ≠ .error (.unknownModel name) := by
  have closed := closed_of_ofSpecs loaded
  refine ⟨closed, fun r call m hregistry hm builtIn s name hunknown => ?_⟩
  subst hregistry
  have hfound := r.answer_finds hm closed builtIn s
  rw [hunknown] at hfound
  cases hfound

namespace Blog

/-- The posts of the blog are read along a relationship, by an operator that finds the same row
everywhere. -/
theorem found_postsOfAda :
    Registry.ofSpecs specs = .ok registry ∧ registry.Closed ∧
      ∀ name, (((hauntedEngine.runner 0).answer postsOfAda).runFrom ()).1 ≠
        .error (.unknownModel name) := by
  obtain ⟨closed, hfound⟩ := Registry.closed_and_found loaded
  refine ⟨loaded, closed, ?_⟩
  exact hfound (hauntedEngine.runner 0) postsOfAda rfl rfl (fun _ _ _ _ _ => rfl) ()

end Blog
end ModelActions
