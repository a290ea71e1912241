import Mathlib.Data.List.Chain
import ModelActions.Proofs.Computation

/-!
# Trails

A trail is the way that a walk takes through a graph: states that were completed, each of them the
one to which the state before leads. The history of a run is its trail, and a run that fails does so
at the place to which its trail leads.
-/
namespace ModelActions
variable {σ : Type}

theorem Tasks.get_eq_error {tasks : Tasks σ} {resource : String} {e : Error} :
    tasks.get resource = .error e ↔ tasks.has resource = false ∧ e = .unknownTask resource := by
  unfold Tasks.get Tasks.has
  cases tasks.handler? resource with
  | none => simp [eq_comm]
  | some handler => simp

/-- Where a state leads: a task to its next state, a choice to that of its first rule that holds of
input and context, or to its default if none holds. -/
inductive State.LeadsTo (input context : Json) : State → String → Prop
  | next {t : TaskState} {next : String} (goesOn : t.final = false) (named : t.next = some next) :
      LeadsTo input context (.task t) next
  | rule {c : ChoiceState} {earlier later : List ChoiceRule} {r : ChoiceRule}
      (rules : c.rules = earlier ++ r :: later)
      (failed : ∀ r' ∈ earlier, r'.predicate.holds input context = false)
      (holds : r.predicate.holds input context = true) : LeadsTo input context (.choice c) r.next
  | default {c : ChoiceState} {next : String}
      (failed : ∀ r ∈ c.rules, r.predicate.holds input context = false)
      (named : c.default = some next) : LeadsTo input context (.choice c) next

/-- What a state makes of an input, and of the host: a task runs its handler, a choice hands the
input on. -/
inductive State.Completes (tasks : Tasks σ) (ctx : Context σ) (input : Json) (s : σ) :
    State → Json → σ → Prop
  | task {t : TaskState} {handler : Handler σ} {output : Json} {s' : σ}
      (registered : tasks.get t.resource = .ok handler)
      (ran : (handler ctx input).runFrom s = (.ok output, s')) :
      Completes tasks ctx input s (.task t) output s'
  | choice {c : ChoiceState} : Completes tasks ctx input s (.choice c) input s

namespace Walk

/-- Where a walk stands: the state that it is about to visit, the input and the host. -/
structure Place (σ : Type) where
  state : String
  input : Json
  host : σ

/-- A state that was completed, what went in and what came out. -/
structure Visit where
  name : String
  state : State
  input : Json
  output : Json

namespace Visit

def record (traced : Bool) (number : Nat) (v : Visit) : Record :=
  ⟨number, v.name, v.state.kind, if traced then some ⟨v.input, v.output⟩ else none⟩

/-- The records of some visits, numbered from the given one. -/
def records (traced : Bool) (number : Nat) : List Visit → List Record
  | [] => []
  | v :: visits => v.record traced number :: records traced (number + 1) visits

/-- The name of the last state visited, or the given one if there is none. -/
def lastName (previous : String) (visits : List Visit) : String :=
  (visits.getLast?.map (·.name)).getD previous

/-- Each visit is given what the one before put out, and choices hand it on. -/
def Linked : Json → List Visit → Prop
  | _, [] => True
  | input, v :: visits =>
    v.input = input ∧ (v.state.kind = .choice → v.output = v.input) ∧ Linked v.output visits

theorem map_number_records (traced : Bool) (number : Nat) (visits : List Visit) :
    (records traced number visits).map (·.number) = List.range' number visits.length := by
  induction visits generalizing number with
  | nil => rfl
  | cons v visits ih => simp [records, record, ih, List.range'_succ]

theorem length_records (traced : Bool) (number : Nat) (visits : List Visit) :
    (records traced number visits).length = visits.length := by
  have hnumbers := congrArg List.length (map_number_records traced number visits)
  rwa [List.length_map, List.length_range'] at hnumbers

theorem lastName_cons (previous : String) (v : Visit) (visits : List Visit) :
    lastName previous (v :: visits) = lastName v.name visits := by
  rw [lastName, lastName, List.getLast?_cons]
  cases visits.getLast? <;> rfl

end Visit

/-- A traced history: each state was given what the one before put out, and choices handed it on. -/
structure Traced (history : List Record) : Prop where
  linked : history.IsChain fun r r' =>
    ∃ x x', r.trace = some x ∧ r'.trace = some x' ∧ x'.input = x.output
  choices : ∀ r ∈ history, ∃ x, r.trace = some x ∧ (r.kind = .choice → x.output = x.input)

theorem traced_records {input : Json} (number : Nat) {visits : List Visit}
    (h : Visit.Linked input visits) : Traced (Visit.records true number visits) := by
  induction visits generalizing input number with
  | nil => exact ⟨.nil, by simp [Visit.records]⟩
  | cons v visits ih =>
    obtain ⟨-, hchoice, hrest⟩ := h
    obtain ⟨hlinked, hchoices⟩ := ih (number + 1) hrest
    constructor
    · refine hlinked.cons fun r hr => ?_
      cases visits with
      | nil => simp [Visit.records] at hr
      | cons w visits =>
        obtain rfl := Option.some.inj hr
        exact ⟨_, _, rfl, rfl, hrest.1⟩
    · intro r hr
      rcases List.mem_cons.1 hr with rfl | hr
      · exact ⟨_, rfl, hchoice⟩
      · exact hchoices r hr

section
variable (g : Graph) (tasks : Tasks σ) (ctx : Context σ) (context : Json)

/-- States that are completed one after the other on the way from one place to another. -/
inductive Trail : Place σ → List Visit → Place σ → Prop
  | here (a : Place σ) : Trail a [] a
  | step {a b : Place σ} {state : State} {output : Json} {s : σ} {next : String}
      {visits : List Visit} (defined : g.states.get? a.state = some state)
      (completes : state.Completes tasks ctx a.input a.host output s)
      (leads : state.LeadsTo a.input context next) (rest : Trail ⟨next, output, s⟩ visits b) :
      Trail a (⟨a.state, state, a.input, output⟩ :: visits) b

/-- How a walk can fail at a place, to which it came from the state `previous`. -/
inductive Fails (previous : String) (a : Place σ) : Error → σ → Prop
  | undefined (missing : g.states.get? a.state = none) :
      Fails previous a (.undefinedState previous a.state) a.host
  | unregistered {t : TaskState} (defined : g.states.get? a.state = some (.task t))
      (missing : tasks.has t.resource = false) : Fails previous a (.unknownTask t.resource) a.host
  | handler {t : TaskState} {handler : Handler σ} {e : Error} {s : σ}
      (defined : g.states.get? a.state = some (.task t))
      (registered : tasks.get t.resource = .ok handler)
      (ran : (handler ctx a.input).runFrom a.host = (.error e, s)) : Fails previous a e s
  | deadEnd {t : TaskState} {output : Json} {s : σ}
      (defined : g.states.get? a.state = some (.task t))
      (completes : (State.task t).Completes tasks ctx a.input a.host output s)
      (goesOn : t.final = false) (missing : t.next = none) :
      Fails previous a (.missingTransition a.state) s
  | noRule {c : ChoiceState} (defined : g.states.get? a.state = some (.choice c))
      (failed : ∀ r ∈ c.rules, r.predicate.holds a.input context = false)
      (missing : c.default = none) : Fails previous a (.missingTransition a.state) a.host

/-- What comes of a walk that visits at most `fuel` states from a place on, to which it came from
the state `previous` after the recorded past: it completes a final task where its trail has led, or
fails there, or is given up. -/
inductive Walked (traced : Bool) (fuel : Nat) (previous : String) (a : Place σ)
    (past : List Record) : Packet → Except Error Unit → σ → Prop
  | final {visits : List Visit} {stop : Place σ} {t : TaskState} {q : Packet} {s : σ}
      (trail : Trail g tasks ctx context a visits stop)
      (defined : g.states.get? stop.state = some (.task t)) (final : t.final = true)
      (completes : (State.task t).Completes tasks ctx stop.input stop.host q.output s)
      (history : q.history = past ++ Visit.records traced (past.length + 1)
        (visits ++ [⟨stop.state, .task t, stop.input, q.output⟩])) :
      Walked traced fuel previous a past q (.ok ()) s
  | fails {visits : List Visit} {stop : Place σ} {e : Error} {q : Packet} {s : σ}
      (trail : Trail g tasks ctx context a visits stop)
      (fails : Fails g tasks ctx context (Visit.lastName previous visits) stop e s)
      (input : q.input = stop.input)
      (history : q.history = past ++ Visit.records traced (past.length + 1) visits) :
      Walked traced fuel previous a past q (.error e) s
  | givenUp {visits : List Visit} {stop : Place σ} {q : Packet}
      (trail : Trail g tasks ctx context a visits stop) (length : visits.length = fuel)
      (history : q.history = past ++ Visit.records traced (past.length + 1) visits) :
      Walked traced fuel previous a past q (.error (.givenUp stop.state)) stop.host

/-- What comes of visiting a state at a place: the state is completed and leads to another one or
ends the walk, or the walk fails. Only the output of the packet changes. -/
inductive Visited (previous : String) (a : Place σ) (p : Packet) :
    State → Packet → Except Error Exit → σ → Prop
  | leads {state : State} {output : Json} {s : σ} {next : String}
      (completes : state.Completes tasks ctx a.input a.host output s)
      (leads : state.LeadsTo a.input context next) :
      Visited previous a p state { p with output } (.ok (.next next)) s
  | final {t : TaskState} {output : Json} {s : σ}
      (completes : (State.task t).Completes tasks ctx a.input a.host output s)
      (final : t.final = true) : Visited previous a p (.task t) { p with output } (.ok .done) s
  | fails {state : State} {output : Json} {e : Error} {s : σ}
      (fails : Fails g tasks ctx context previous a e s) :
      Visited previous a p state { p with output } (.error e) s

end

section
variable {g : Graph} {tasks : Tasks σ} {ctx : Context σ} {context : Json}

theorem leadsTo_of_target? {c : ChoiceState} {input : Json} {next : String}
    (h : c.target? input context = some next) : (State.choice c).LeadsTo input context next := by
  unfold ChoiceState.target? at h
  split at h
  · next r hfind =>
    cases h
    obtain ⟨holds, earlier, later, rules, failed⟩ := List.find?_eq_some_iff_append.1 hfind
    exact .rule rules (by simpa using failed) holds
  · next hfind => exact .default (by simpa using hfind) h

theorem noRule_of_target? {c : ChoiceState} {input : Json} (h : c.target? input context = none) :
    (∀ r ∈ c.rules, r.predicate.holds input context = false) ∧ c.default = none := by
  unfold ChoiceState.target? at h
  split at h
  · cases h
  · next hfind => exact ⟨by simpa using hfind, h⟩

theorem visited (tasks : Tasks σ) (ctx : Context σ) (previous : String) {current : String}
    {state : State} (p : Packet) (s : σ) (defined : g.states.get? current = some state) :
    let answer := (visit tasks ctx current state p).run s
    Visited g tasks ctx p.context previous ⟨current, p.input, s⟩ p state answer.1.1 answer.1.2
      answer.2 := by
  dsimp only
  cases state with
  | choice c =>
    simp only [visit]
    cases htarget : c.target? p.input p.context with
    | some next => exact .leads .choice (leadsTo_of_target? htarget)
    | none =>
      obtain ⟨failed, missing⟩ := noRule_of_target? htarget
      exact .fails (.noRule defined failed missing)
  | task task =>
    simp only [visit]
    cases hget : tasks.get task.resource with
    | error e =>
      obtain ⟨missing, rfl⟩ := Tasks.get_eq_error.1 hget
      exact .fails (.unregistered defined missing)
    | ok handler =>
      simp only [StateT.run_bind]
      rcases hrun : (handler ctx p.input).run.run s with ⟨_ | output, s'⟩
      · exact .fails (.handler defined hget hrun)
      · have completes : (State.task task).Completes tasks ctx p.input s output s' :=
          .task hget hrun
        simp only [taskExit]
        cases hfinal : task.final with
        | true => exact .final completes hfinal
        | false =>
          cases hnext : task.next with
          | some next => exact .leads completes (.next hfinal hnext)
          | none => exact .fails (.deadEnd defined completes hfinal hnext)

/-- A completed state comes before what the rest of the walk visits. -/
theorem Walked.step {traced : Bool} {fuel : Nat} (previous : String) {a : Place σ}
    {past : List Record} {state : State} {output : Json} {s t : σ} {next : String} {q : Packet}
    {result : Except Error Unit} (defined : g.states.get? a.state = some state)
    (completes : state.Completes tasks ctx a.input a.host output s)
    (leads : state.LeadsTo a.input context next)
    (rest : Walked g tasks ctx context traced fuel a.state ⟨next, output, s⟩
      (past ++ [Visit.record traced (past.length + 1) ⟨a.state, state, a.input, output⟩]) q result
      t) :
    Walked g tasks ctx context traced (fuel + 1) previous a past q result t := by
  have hrecords (visits : List Visit) :
      past ++ [Visit.record traced (past.length + 1) ⟨a.state, state, a.input, output⟩] ++
          Visit.records traced
            ((past ++ [Visit.record traced (past.length + 1)
              ⟨a.state, state, a.input, output⟩]).length + 1) visits =
        past ++ Visit.records traced (past.length + 1)
          (⟨a.state, state, a.input, output⟩ :: visits) := by
    simp [Visit.records]
  cases rest with
  | final trail hdefined hfinal hcompletes history =>
    rw [hrecords] at history
    exact .final (.step defined completes leads trail) hdefined hfinal hcompletes history
  | fails trail hfails hinput history =>
    rw [hrecords] at history
    exact .fails (.step defined completes leads trail) (by rwa [Visit.lastName_cons]) hinput history
  | givenUp trail hlength history =>
    rw [hrecords] at history
    exact .givenUp (.step defined completes leads trail) (congrArg (· + 1) hlength) history

theorem walked (g : Graph) (tasks : Tasks σ) (ctx : Context σ) (traced : Bool) (fuel : Nat)
    (previous current : String) (p : Packet) (s : σ) :
    let answer := (walk g tasks ctx traced fuel previous current p).run s
    Walked g tasks ctx p.context traced fuel previous ⟨current, p.input, s⟩ p.history answer.1.1
      answer.1.2 answer.2 := by
  -- on the states that may still be visited; what was recorded so far is the packet's history
  induction fuel generalizing previous current p s with
  | zero => exact .givenUp (.here _) rfl (List.append_nil _).symm
  | succ fuel ih =>
    simp only [walk]
    cases defined : g.states.get? current with
    | none => exact .fails (.here _) (.undefined defined) rfl (List.append_nil _).symm
    | some state =>
      have hvisited := visited tasks ctx previous p s defined
      simp only [StateT.run_bind]
      generalize (visit tasks ctx current state p).run s = answer at hvisited ⊢
      obtain ⟨⟨q, exit⟩, s'⟩ := answer
      cases hvisited with
      | fails fails => exact .fails (.here _) fails rfl (List.append_nil _).symm
      | final completes final => exact .final (.here _) defined final completes rfl
      | @leads _ output _ next completes leads =>
        exact .step previous defined completes leads
          (ih current next (({ p with output }).record traced current state.kind).advance s')

/-- What a walk hands on reaches the states that it visits next. -/
theorem Trail.linked {a b : Place σ} {visits : List Visit}
    (h : Trail g tasks ctx context a visits b) (later : List Visit)
    (rest : Visit.Linked b.input later) : Visit.Linked a.input (visits ++ later) := by
  induction h with
  | here a => exact rest
  | step defined completes leads _ ih =>
    refine ⟨rfl, fun hkind => ?_, ih rest⟩
    cases completes with
    | task => cases hkind
    | choice => rfl

/-- The history of a walk is its past and the records of some linked visits. -/
theorem Walked.records {traced : Bool} {fuel : Nat} {previous : String} {a : Place σ}
    {past : List Record} {q : Packet} {result : Except Error Unit} {s : σ}
    (h : Walked g tasks ctx context traced fuel previous a past q result s) :
    ∃ visits, Visit.Linked a.input visits ∧
      q.history = past ++ Visit.records traced (past.length + 1) visits := by
  cases h with
  | final trail _ _ _ history =>
    refine ⟨_, trail.linked [_] ⟨rfl, fun hkind => ?_, trivial⟩, history⟩
    cases hkind
  | fails trail _ _ history =>
    have hlinked := trail.linked [] trivial
    rw [List.append_nil] at hlinked
    exact ⟨_, hlinked, history⟩
  | givenUp trail _ history =>
    have hlinked := trail.linked [] trivial
    rw [List.append_nil] at hlinked
    exact ⟨_, hlinked, history⟩

end

/-- The history of a run is the trail of its walk from the first state on, with records numbered
from one. If the run succeeds, the last state is a final task, whose output is that of the run. If
it fails, the state where it does is not recorded. With traces, each record shows what the one
before put out. -/
theorem run_history (g : Graph) (tasks : Tasks σ) (ctx : Context σ) (traced : Bool) (patience : Nat)
    (input context : Json) (s : σ) :
    let answer := (run g tasks ctx traced patience { input, context }).run s
    let history := answer.1.1.history
    Walked g tasks ctx context traced (g.states.length + 1 + patience) "StartAt"
        ⟨g.start, input, s⟩ [] answer.1.1 answer.1.2 answer.2 ∧
      history.map (·.number) = List.range' 1 history.length ∧
      (traced = true → Traced history) := by
  have hwalked := walked g tasks ctx traced (g.states.length + 1 + patience) "StartAt" g.start
    { input, context } s
  obtain ⟨visits, hlinked, hrecords⟩ := hwalked.records
  refine ⟨hwalked, ?_, ?_⟩
  · rw [run, hrecords, List.nil_append, Visit.map_number_records, Visit.length_records]
    rfl
  · rintro rfl
    rw [run, hrecords]
    exact traced_records 1 hlinked

end Walk
end ModelActions
