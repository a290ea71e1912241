import ModelActions.Proofs.Calls
import ModelActions.Proofs.Trails
import ModelActions.Proofs.Visible

/-!
# Checked graphs

A walk through a graph that was checked stays among the states of the graph and finds every task
that it needs. What is left to go wrong are the tasks themselves, and choices without a default.
-/
namespace ModelActions
variable {σ : Type}

namespace Graph
variable {g : Graph} {known : String → Bool}

/-- What a checked state offers: a task that is known, and targets that exist. -/
inductive Sound (g : Graph) (known : String → Bool) : State → Prop
  | ends {t : TaskState} (registered : known t.resource = true) (final : t.final = true) :
      Sound g known (.task t)
  | goesOn {t : TaskState} {next : String} (registered : known t.resource = true)
      (named : t.next = some next) (defined : g.states.has next = true) : Sound g known (.task t)
  | choice {c : ChoiceState} (rules : ∀ r ∈ c.rules, g.states.has r.next = true)
      (default : ∀ next, c.default = some next → g.states.has next = true) :
      Sound g known (.choice c)

/-- A graph whose start and whose targets exist, with no task that is unknown. -/
structure Checked (g : Graph) (known : String → Bool) : Prop where
  start : g.states.has g.start = true
  states : ∀ {name state}, g.states.get? name = some state → g.Sound known state

theorem checkTarget_eq_ok {state target : String} :
    g.checkTarget state target = .ok () ↔ g.states.has target = true := by
  unfold checkTarget
  cases g.states.has target <;> simp

theorem has_of_checkRules {state : String} {rules : List ChoiceRule}
    (h : g.checkRules state rules = .ok ()) : ∀ r ∈ rules, g.states.has r.next = true := by
  induction rules with
  | nil => simp
  | cons r rules ih =>
    obtain ⟨_, hr, hrules⟩ := bind_eq_ok.1 h
    exact List.forall_mem_cons.2 ⟨checkTarget_eq_ok.1 hr, ih hrules⟩

theorem sound_of_checkState {name : String} {state : State}
    (h : g.checkState known name state = .ok ()) : g.Sound known state := by
  cases state with
  | task t =>
    have hknown : (if known t.resource then .ok () else .error (.unknownTask t.resource)) =
        (.ok () : Except Error Unit) → known t.resource = true := by
      cases known t.resource <;> simp
    simp only [checkState] at h
    split at h
    · cases h
    · next next named _ =>
      obtain ⟨_, htarget, h⟩ := bind_eq_ok.1 h
      exact .goesOn (hknown h) named (checkTarget_eq_ok.1 htarget)
    · next final => exact .ends (hknown h) final
    · cases h
  | choice c =>
    simp only [checkState] at h
    split at h
    · cases h
    · obtain ⟨_, hrules, h⟩ := bind_eq_ok.1 h
      refine .choice (has_of_checkRules hrules) fun next named => ?_
      rw [named] at h
      exact checkTarget_eq_ok.1 h

theorem sound_of_checkStates {states : List (String × State)}
    (h : g.checkStates known states = .ok ()) : ∀ e ∈ states, g.Sound known e.2 := by
  induction states with
  | nil => simp
  | cons e states ih =>
    obtain ⟨_, he, hstates⟩ := bind_eq_ok.1 h
    exact List.forall_mem_cons.2 ⟨sound_of_checkState he, ih hstates⟩

theorem checked_of_check (h : g.check known = .ok ()) : g.Checked known := by
  rw [check] at h
  cases hstart : g.states.has g.start with
  | false =>
    rw [hstart] at h
    cases h
  | true =>
    rw [hstart] at h
    exact ⟨hstart, fun hget => sound_of_checkStates h _ (Members.mem_of_get? hget)⟩

/-- A sound state leads to states of the graph only. -/
theorem Sound.has_of_leadsTo {state : State} {input context : Json} {next : String}
    (sound : g.Sound known state) (leads : state.LeadsTo input context next) :
    g.states.has next = true := by
  cases sound with
  | ends _ final =>
    cases leads with
    | next goesOn _ => rw [final] at goesOn; cases goesOn
  | goesOn _ named defined =>
    cases leads with
    | next _ named' =>
      rw [named] at named'
      cases named'
      exact defined
  | choice rules default =>
    cases leads with
    | rule hrules _ _ => exact rules _ (by simp [hrules])
    | default _ named => exact default _ named

end Graph

namespace Walk
variable {g : Graph} {tasks : Tasks σ} {ctx : Context σ} {context : Json}

/-- How a walk through a checked graph can fail at a place: the task of the state fails, or the
state is a choice without a default and none of its rules holds. -/
inductive FailsChecked (g : Graph) (tasks : Tasks σ) (ctx : Context σ) (context : Json)
    (a : Place σ) : Error → σ → Prop
  | handler {t : TaskState} {handler : Handler σ} {e : Error} {s : σ}
      (defined : g.states.get? a.state = some (.task t))
      (registered : tasks.get t.resource = .ok handler)
      (ran : (handler ctx a.input).runFrom a.host = (.error e, s)) :
      FailsChecked g tasks ctx context a e s
  | noRule {c : ChoiceState} (defined : g.states.get? a.state = some (.choice c))
      (failed : ∀ r ∈ c.rules, r.predicate.holds a.input context = false)
      (missing : c.default = none) :
      FailsChecked g tasks ctx context a (.missingTransition a.state) a.host

/-- A trail through a checked graph ends at one of its states. -/
theorem Trail.has_of_checked (checked : g.Checked tasks.has) {a b : Place σ} {visits : List Visit}
    (trail : Trail g tasks ctx context a visits b) (ha : g.states.has a.state = true) :
    g.states.has b.state = true := by
  induction trail with
  | here => exact ha
  | step defined _ leads _ ih => exact ih ((checked.states defined).has_of_leadsTo leads)

theorem Fails.of_checked (checked : g.Checked tasks.has) {previous : String} {a : Place σ}
    {e : Error} {s : σ} (fails : Fails g tasks ctx context previous a e s)
    (ha : g.states.has a.state = true) : FailsChecked g tasks ctx context a e s := by
  cases fails with
  | undefined missing =>
    rw [Members.has, missing] at ha
    cases ha
  | unregistered defined missing =>
    cases checked.states defined with
    | ends known | goesOn known => rw [missing] at known; cases known
  | handler defined registered ran => exact .handler defined registered ran
  | deadEnd defined _ goesOn missing =>
    cases checked.states defined with
    | ends _ final => rw [goesOn] at final; cases final
    | goesOn _ named => rw [missing] at named; cases named
  | noRule defined failed missing => exact .noRule defined failed missing

end Walk

namespace Runner
variable {engine : Engine σ} {tasks : Tasks σ} {patience : Nat} {r : Runner σ}

/-- A runner that looks at graphs before they run, and found nothing wrong with those that it
knows. -/
structure Eager (r : Runner σ) : Prop where
  validates : r.settings.eagerGraphValidation = true
  checked : ∀ g ∈ graphsOf r.registry, g.Checked r.tasks.has

theorem eager_of_make (validates : engine.settings.eagerGraphValidation = true)
    (made : make engine tasks patience = .ok r) : r.Eager := by
  rw [make, if_pos validates] at made
  obtain ⟨_, hchecks, made⟩ := bind_eq_ok.1 made
  cases made
  exact ⟨validates, fun g hg => Graph.checked_of_check (forM_eq_ok.1 hchecks g hg)⟩

theorem mem_graphsOf {registry : Registry} {name : String} {m : Model} {a : Action} {g : Graph}
    (hm : registry.models.get? name = some m) (hg : a.graph m = .ok g) : g ∈ graphsOf registry := by
  rw [graphsOf, List.mem_append]
  cases a with
  | custom action =>
    simp only [Action.graph] at hg
    split at hg
    · next g' hget =>
      cases hg
      exact .inr (List.mem_flatMap.2 ⟨_, Members.mem_of_get? hm,
        List.mem_map_of_mem (Members.mem_of_get? hget)⟩)
    · cases hg
  | _ =>
    cases hg
    exact .inl (by simp [Graph.builtin])

theorem Eager.checked_start (eager : r.Eager) {call : Call} {start : Start}
    (started : r.start call = .ok start) : start.graph.Checked r.tasks.has := by
  cases call with
  | action model action input =>
    obtain ⟨m, hm, h⟩ := bind_eq_ok.1 started
    obtain ⟨input, -, h⟩ := bind_eq_ok.1 h
    obtain ⟨g, hg, h⟩ := bind_eq_ok.1 h
    cases h
    exact eager.checked g (mem_graphsOf (Registry.get_eq_ok.1 hm) hg)
  | graph model g input =>
    rw [Runner.start, if_pos eager.validates] at started
    obtain ⟨_, hcheck, h⟩ := bind_eq_ok.1 started
    obtain ⟨m, -, h⟩ := bind_eq_ok.1 h
    cases h
    exact Graph.checked_of_check hcheck

theorem walked_walkOf (r : Runner σ) (start : Start) (s : σ) :
    let answer := (r.walkOf start).run s
    Walk.Walked start.graph r.tasks (r.contextOf start) (r.contextOf start).document
      r.settings.debugTrace (start.graph.states.length + 1 + r.patience) "StartAt"
      ⟨start.graph.start, start.input, s⟩ [] answer.1.1 answer.1.2 answer.2 :=
  Walk.walked start.graph r.tasks (r.contextOf start) _ _ _ _
    { input := start.input, context := (r.contextOf start).document } s

/-- How a call can fail if graphs are checked: it is turned down, or its walk fails where a task
does or where a choice has no way on, or its walk is given up. -/
inductive FailsChecked (r : Runner σ) (call : Call) (s : σ) : Error → σ → Prop
  | refused {e : Error} (start : r.start call = .error e) : FailsChecked r call s e s
  | walk {start : Start} {visits : List Walk.Visit} {stop : Walk.Place σ} {e : Error} {t : σ}
      (started : r.start call = .ok start)
      (trail : Walk.Trail start.graph r.tasks (r.contextOf start) (r.contextOf start).document
        ⟨start.graph.start, start.input, s⟩ visits stop)
      (fails : Walk.FailsChecked start.graph r.tasks (r.contextOf start)
        (r.contextOf start).document stop e t) : FailsChecked r call s e t
  | givenUp {start : Start} {visits : List Walk.Visit} {stop : Walk.Place σ}
      (started : r.start call = .ok start)
      (trail : Walk.Trail start.graph r.tasks (r.contextOf start) (r.contextOf start).document
        ⟨start.graph.start, start.input, s⟩ visits stop)
      (length : visits.length = start.graph.states.length + 1 + r.patience) :
      FailsChecked r call s (.givenUp stop.state) stop.host

/-- Where graphs are validated eagerly, a call fails only as calls of checked graphs can. -/
theorem failsChecked_of_make (validates : engine.settings.eagerGraphValidation = true)
    (made : make engine tasks patience = .ok r) {call : Call} {e : Error} {s t : σ}
    (failed : (r.answer call).runFrom s = (.error e, t)) : r.FailsChecked call s e t := by
  have eager := eager_of_make validates made
  rw [runFrom_answer] at failed
  cases started : r.start call with
  | error e' =>
    rw [started] at failed
    cases failed
    exact .refused started
  | ok start =>
    rw [started] at failed
    obtain ⟨hresult, ht⟩ := Walk.settle_eq_error.1 failed
    have checked := eager.checked_start started
    have walked := r.walked_walkOf start s
    dsimp only at walked
    rw [hresult, ht] at walked
    cases walked with
    | fails trail fails =>
      have defined := trail.has_of_checked checked checked.start
      exact .walk started trail (fails.of_checked checked defined)
    | givenUp trail length => exact .givenUp started trail length

/-- A graph that asks a question which has no answer but null. -/
def question : Graph where
  start := "Ask"
  states := [("Ask", .choice { rules := [⟨.test "$" (.isNull true), "Ask"⟩] })]

theorem failsChecked_question :
    let r := Store.runner Blog.world Blog.registry {} 0
    let call := Call.graph "post" question (.obj [])
    make (Store.engine Blog.world Blog.registry {}) Tasks.builtin 0 = .ok r ∧
      (r.answer call).runFrom Blog.store = (.error (.missingTransition "Ask"), Blog.store) ∧
      r.FailsChecked call Blog.store (.missingTransition "Ask") Blog.store := by
  have made : make (Store.engine Blog.world Blog.registry {}) Tasks.builtin 0 =
      .ok (Store.runner Blog.world Blog.registry {} 0) := rfl
  exact ⟨made, rfl, failsChecked_of_make rfl made rfl⟩

end Runner
end ModelActions
