import ModelActions.Proofs.Recordings
import ModelActions.Proofs.Trails

/-!
# Operators that fail

An operator may fail at any call. The first failure ends the run: it is the last call that the
operator receives, its reason is the result, and the state that sent it is the last that ran.
-/
namespace ModelActions
variable {σ : Type}

namespace Recording

/-- None of the operations failed. -/
def Answered (r : Recording) : Prop := ∀ entry ∈ r, ∃ answer, entry.2 = .ok answer

/-- What an operator was sent during a computation with some result: all operations were answered,
or the last one failed and its reason is the result. -/
inductive Ends {α : Type} : Recording → Except Error α → Prop
  | answered {r : Recording} {result : Except Error α} (answered : Answered r) : Ends r result
  | failed {r : Recording} (op : Operation) (failure : Failure) (answered : Answered r) :
      Ends (r ++ [(op, .error failure)]) (.error failure.toError)

theorem answered_nil : Answered [] := fun _ h => by contradiction

theorem Answered.append {r r' : Recording} (first : Answered r) (rest : Answered r') :
    Answered (r ++ r') := by
  intro entry hentry
  rcases List.mem_append.1 hentry with hentry | hentry
  · exact first entry hentry
  · exact rest entry hentry

section
variable {α β : Type} {r r' : Recording}

/-- A computation that succeeds was answered throughout. -/
theorem Ends.answered_of_ok {a : α} (h : Ends r (.ok a : Except Error α)) : Answered r := by
  cases h with
  | answered answered => exact answered

/-- Operations that were answered may come before. -/
theorem Ends.append {result : Except Error α} (first : Answered r) (rest : Ends r' result) :
    Ends (r ++ r') result := by
  cases rest with
  | answered answered => exact .answered (first.append answered)
  | failed op failure answered =>
    rw [← List.append_assoc]
    exact .failed op failure (first.append answered)

/-- Only the reason of a failure matters, not what the computation would have given. -/
theorem Ends.of_error {e : Error} (h : Ends r (.error e : Except Error α)) :
    Ends r (.error e : Except Error β) := by
  cases h with
  | answered answered => exact .answered answered
  | failed op failure answered => exact .failed op failure answered

theorem Ends.answered_dropLast {result : Except Error α} (h : Ends r result) :
    Answered r.dropLast := by
  cases h with
  | answered answered => exact fun entry hentry => answered entry (List.dropLast_subset r hentry)
  | failed op failure answered => rwa [List.dropLast_concat]

/-- The operation that failed is the last one. -/
theorem Ends.of_mem_error {result : Except Error α} (h : Ends r result) {op : Operation}
    {failure : Failure} (hmem : (op, .error failure) ∈ r) :
    r.getLast? = some (op, .error failure) ∧ result = .error failure.toError := by
  cases h with
  | answered answered =>
    obtain ⟨answer, hanswer⟩ := answered _ hmem
    contradiction
  | failed op' failure' answered =>
    rcases List.mem_append.1 hmem with hmem | hmem
    · obtain ⟨answer, hanswer⟩ := answered _ hmem
      contradiction
    · have he := List.mem_singleton.1 hmem
      simp only [Prod.mk.injEq, Except.error.injEq] at he
      obtain ⟨rfl, rfl⟩ := he
      exact ⟨List.getLast?_concat, rfl⟩

end

end Recording

open Recording (Answered Ends)

/-- What a computation sends after some other operations ends with its result. -/
theorem Act.Sends.ends {host : Host σ} {P : Operation → Prop} {α : Type}
    {x : Act (σ × Recording) α} {Q : α → Prop} (h : Sends host.recorded P x Q) (s : σ)
    (past : Recording) :
    ∃ sent, (x.runFrom (s, past)).2.2 = past ++ sent ∧ Ends sent (x.runFrom (s, past)).1 := by
  -- on the parts of the computation; a part after which another one runs has succeeded
  induction h generalizing s past with
  | pure | throw | readClock | drawKey =>
    exact ⟨[], (List.append_nil past).symm, .answered Recording.answered_nil⟩
  | @perform op sent =>
    rw [runFrom_perform]
    refine ⟨[(op, (host.execute op s).1)], rfl, ?_⟩
    simp only [Host.recorded]
    cases (host.execute op s).1 with
    | ok answer =>
      apply Ends.answered
      intro entry hentry
      rw [List.mem_singleton.1 hentry]
      exact ⟨answer, rfl⟩
    | error failure => exact .failed op failure Recording.answered_nil
  | @bind α β x f Q Q' first rest ih₁ ih₂ =>
    obtain ⟨sent, hsent, hends⟩ := ih₁ s past
    rw [runFrom_bind]
    rcases hx : x.runFrom (s, past) with ⟨e | a, t, r⟩
    · rw [hx] at hsent hends
      exact ⟨sent, hsent, hends.of_error⟩
    · rw [hx] at hsent hends
      replace hsent : r = past ++ sent := hsent
      obtain ⟨sent', hsent', hends'⟩ := ih₂ a (first.result hx) t r
      refine ⟨sent ++ sent', ?_, .append hends.answered_of_ok hends'⟩
      rw [hsent', hsent, List.append_assoc]

namespace Walk
variable {g : Graph} {tasks : Tasks (σ × Recording)} {ctx : Context (σ × Recording)}
  {context : Json}

/-- Whatever the tasks send ends with what they give. -/
def Aborting (tasks : Tasks (σ × Recording)) (ctx : Context (σ × Recording)) : Prop :=
  ∀ {resource : String} {handler : Handler (σ × Recording)}, tasks.get resource = .ok handler →
    ∀ (input : Json) (s : σ) (past : Recording), ∃ sent,
      ((handler ctx input).runFrom (s, past)).2.2 = past ++ sent ∧
        Ends sent ((handler ctx input).runFrom (s, past)).1

/-- How a run breaks off at an operation that fails: some states are completed, and all that they
send is answered; then the task of the next state fails with the reason of the operator. The history
lists the states before it, and no state runs after it. -/
inductive BreaksOff (g : Graph) (tasks : Tasks (σ × Recording)) (ctx : Context (σ × Recording))
    (traced : Bool) (start : Place (σ × Recording)) (context : Json) (failure : Failure) :
    Packet → σ × Recording → Prop
  | intro {visits : List Visit} {stop : Place (σ × Recording)} {t : TaskState}
      {handler : Handler (σ × Recording)} {q : Packet} {s : σ × Recording}
      (trail : Trail g tasks ctx context start visits stop) (before : Answered stop.host.2)
      (defined : g.states.get? stop.state = some (.task t))
      (registered : tasks.get t.resource = .ok handler)
      (ran : (handler ctx stop.input).runFrom stop.host = (.error failure.toError, s))
      (history : q.history = Visit.records traced 1 visits) :
      BreaksOff g tasks ctx traced start context failure q s

/-- A state that is completed was answered throughout. -/
theorem answered_of_completes (aborting : Aborting tasks ctx) {state : State} {input output : Json}
    {s s' : σ × Recording} (h : state.Completes tasks ctx input s output s')
    (past : Answered s.2) : Answered s'.2 := by
  cases h with
  | choice => exact past
  | task registered ran =>
    obtain ⟨sent, hsent, hends⟩ := aborting registered input s.1 s.2
    rw [ran] at hsent hends
    replace hsent : s'.2 = s.2 ++ sent := hsent
    rw [hsent]
    exact past.append hends.answered_of_ok

/-- All that is sent on a trail is answered. -/
theorem Trail.answered (aborting : Aborting tasks ctx) {a b : Place (σ × Recording)}
    {visits : List Visit} (h : Trail g tasks ctx context a visits b) (past : Answered a.host.2) :
    Answered b.host.2 := by
  induction h with
  | here a => exact past
  | step defined completes leads rest ih =>
    exact ih (answered_of_completes aborting completes past)

/-- A run in which an operation fails breaks off there. -/
theorem Walked.breaksOff (aborting : Aborting tasks ctx) {traced : Bool} {fuel : Nat}
    {previous : String} {a : Place (σ × Recording)} {q : Packet} {result : Except Error Unit}
    {s : σ × Recording}
    (h : Walked g tasks ctx context traced fuel previous a [] q result s) (fresh : a.host.2 = [])
    {op : Operation} {failure : Failure} (failed : (op, .error failure) ∈ s.2) :
    BreaksOff g tasks ctx traced a context failure q s := by
  have hbefore {b : Place (σ × Recording)} {visits : List Visit}
      (trail : Trail g tasks ctx context a visits b) : Answered b.host.2 := by
    apply trail.answered aborting
    rw [fresh]
    exact Recording.answered_nil
  have hnone {r : Recording} (answered : Answered r) : (op, .error failure) ∉ r := by
    intro hmem
    obtain ⟨answer, hanswer⟩ := answered _ hmem
    contradiction
  cases h with
  | final trail _ _ completes _ =>
    exact absurd failed (hnone (answered_of_completes aborting completes (hbefore trail)))
  | givenUp trail _ _ => exact absurd failed (hnone (hbefore trail))
  | @fails visits stop e q s trail fails _ history =>
    cases fails with
    | undefined | unregistered | noRule => exact absurd failed (hnone (hbefore trail))
    | deadEnd _ completes _ _ =>
      exact absurd failed (hnone (answered_of_completes aborting completes (hbefore trail)))
    | handler defined registered ran =>
      obtain ⟨sent, hsent, hends⟩ := aborting registered stop.input stop.host.1 stop.host.2
      rw [ran] at hsent hends
      replace hsent : s.2 = stop.host.2 ++ sent := hsent
      rw [hsent] at failed
      have hlast := (List.mem_append.1 failed).resolve_left (hnone (hbefore trail))
      obtain ⟨-, he⟩ := hends.of_mem_error hlast
      rw [Except.error.injEq] at he
      subst he
      exact .intro trail (hbefore trail) defined registered ran history

end Walk

namespace Runner

/-- The run that a call starts breaks off at an operation that fails. -/
def BreaksOff (r : Runner (σ × Recording)) (call : Call) (s : σ) (failure : Failure) : Prop :=
  ∃ start, r.start call = .ok start ∧
    Walk.BreaksOff start.graph r.tasks (r.contextOf start) r.settings.debugTrace
      ⟨start.graph.start, start.input, (s, [])⟩ (r.contextOf start).document failure
      ((r.walkOf start).run (s, [])).1.1 ((r.walkOf start).run (s, [])).2

/-- The model of a call that starts is registered. -/
theorem registered_of_start {r : Runner σ} {call : Call} {start : Start}
    (h : r.start call = .ok start) :
    ∃ name, r.registry.models.get? name = some start.model := by
  cases call with
  | action model action input =>
    obtain ⟨m, hm, h⟩ := bind_eq_ok.1 h
    obtain ⟨checked, -, h⟩ := bind_eq_ok.1 h
    obtain ⟨g, -, h⟩ := bind_eq_ok.1 h
    cases h
    exact ⟨model, Registry.get_eq_ok.1 hm⟩
  | graph model g input =>
    have hrest (h : (do return ⟨← r.toEngine.model model, g.comment.getD "graph", g, input⟩ :
        Except Error Start) = .ok start) :
        ∃ name, r.registry.models.get? name = some start.model := by
      obtain ⟨m, hm, h⟩ := bind_eq_ok.1 h
      cases h
      exact ⟨model, Registry.get_eq_ok.1 hm⟩
    simp only [Runner.start] at h
    split at h
    · obtain ⟨_, -, h⟩ := bind_eq_ok.1 h
      exact hrest h
    · exact hrest h

end Runner

/-- The first operation that fails is the last one that an operator receives during a call: all
operations before it were answered, its reason is the error of the call, and the run breaks off in
the state that sent it. -/
theorem Engine.breaksOff_of_failed (e : Engine σ) (patience : Nat) (call : Call) (s : σ) :
    let recording := e.recording patience call s
    let runner := e.recorded.runner patience
    Answered recording.dropLast ∧
      ∀ op failure, (op, .error failure) ∈ recording →
        recording.getLast? = some (op, .error failure) ∧
        ((runner.answer call).runFrom (s, [])).1 = .error failure.toError ∧
        runner.BreaksOff call s failure := by
  intro recording runner
  obtain ⟨sent, hsent, hends⟩ := (runner.answer_sends rfl call).ends s []
  replace hsent : recording = sent := hsent
  subst hsent
  refine ⟨hends.answered_dropLast, fun op failure failed => ?_⟩
  obtain ⟨hlast, hresult⟩ := hends.of_mem_error failed
  refine ⟨hlast, hresult, ?_⟩
  have hanswer := runner.runFrom_answer call (s, [])
  cases hstart : runner.start call with
  | error e =>
    rw [hstart] at hanswer
    have hnil : recording = [] := congrArg (·.2.2) hanswer
    rw [hnil] at failed
    contradiction
  | ok start =>
    rw [hstart] at hanswer
    have hwalk : recording = ((runner.walkOf start).run (s, [])).2.2 := congrArg (·.2.2) hanswer
    obtain ⟨name, hm⟩ := Runner.registered_of_start hstart
    have aborting : Walk.Aborting runner.tasks (runner.contextOf start) := by
      intro resource handler registered input s past
      exact (Task.builtin_sends (runner.contextOf start) hm registered input).ends s past
    have hwalked := Walk.walked start.graph runner.tasks (runner.contextOf start)
      runner.settings.debugTrace (start.graph.states.length + 1 + runner.patience) "StartAt"
      start.graph.start { input := start.input, context := (runner.contextOf start).document }
      (s, [])
    rw [hwalk] at failed
    exact ⟨start, hstart, hwalked.breaksOff aborting rfl failed⟩

namespace Blog

/-- An operator that answers the first select and fails after it. -/
def faltering : Host Nat where
  execute op n :=
    match op, n with
    | .select op, 0 => (.ok (.selected (Store.selection op (store.found op))), 1)
    | _, n => (.error (.refused "down"), n + 1)
  now n := ("", n)
  freshKey n := ("", n)

def falteringEngine : Engine Nat := { registry, settings := {}, host := faltering }

/-- The table that an operation was sent to, and the reason if it failed. -/
def outcome (entry : Operation × Except Failure Answer) : String × Option String :=
  match entry.2 with
  | .error (.refused reason) => (entry.1.table, some reason)
  | _ => (entry.1.table, none)

/-- The subquery of a read is answered, the select after it fails, and the related rows are not
asked for. -/
theorem breaksOff_postsOfAda :
    (falteringEngine.recording 0 postsOfAda 0).map outcome =
      [("users", none), ("posts", some "down")] ∧
    ∃ op, (op, .error (.refused "down")) ∈ falteringEngine.recording 0 postsOfAda 0 ∧
      (falteringEngine.recording 0 postsOfAda 0).getLast? = some (op, .error (.refused "down")) ∧
      (((falteringEngine.recorded.runner 0).answer postsOfAda).runFrom (0, [])).1 =
        .error (.operator "down") ∧
      (falteringEngine.recorded.runner 0).BreaksOff postsOfAda 0 (.refused "down") := by
  have hsent : (falteringEngine.recording 0 postsOfAda 0).map outcome =
      [("users", none), ("posts", some "down")] := by decide +kernel
  have hmem : ("posts", some "down") ∈ (falteringEngine.recording 0 postsOfAda 0).map outcome := by
    rw [hsent]
    simp
  obtain ⟨⟨op, answer⟩, hmem, houtcome⟩ := List.mem_map.1 hmem
  cases answer with
  | ok answer => simp [outcome] at houtcome
  | error failure =>
    obtain rfl : failure = .refused "down" := by
      cases failure with
      | refused reason =>
        have hreason : reason = "down" := by simpa [outcome] using (congrArg Prod.snd houtcome)
        rw [hreason]
      | crashed => simp [outcome] at houtcome
    obtain ⟨-, hfailed⟩ := falteringEngine.breaksOff_of_failed 0 postsOfAda 0
    exact ⟨hsent, op, hmem, hfailed op _ hmem⟩

end Blog
end ModelActions
