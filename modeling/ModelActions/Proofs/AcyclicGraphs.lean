import Mathlib.Data.List.Nodup
import Mathlib.Data.List.Perm.Subperm
import Mathlib.Logic.Relation
import ModelActions.Proofs.Trails
import ModelActions.Proofs.Visible

/-!
# Acyclic graphs

A walk follows the edges of its graph. Where no state that can be reached lies on a cycle, a trail
comes to no state a second time. So it has at most as many visits as the graph has states, and the
walk comes to its end whatever bound is set to it.
-/
namespace ModelActions
variable {σ : Type}

/-- The states to which a state may lead, whatever its input: the next one of a task that does not
end the run, those of all rules of a choice and its default. -/
def State.targets : State → List String
  | .task t => if t.final then [] else t.next.toList
  | .choice c => c.rules.map (·.next) ++ c.default.toList

theorem State.LeadsTo.mem_targets {input context : Json} {state : State} {next : String}
    (h : state.LeadsTo input context next) : next ∈ state.targets := by
  cases h with
  | next goesOn named => simp [targets, goesOn, named]
  | rule rules _ _ => simp [targets, rules]
  | default _ named => simp [targets, named]

namespace Graph
variable {g : Graph}

/-- A state of the graph may lead to another one, which need not be of the graph. -/
def Edge (g : Graph) (a b : String) : Prop :=
  ∃ state, g.states.get? a = some state ∧ b ∈ state.targets

/-- No state that can be reached from the given one lies on a cycle. -/
def AcyclicFrom (g : Graph) (start : String) : Prop :=
  ∀ a, Relation.ReflTransGen g.Edge start a → ¬Relation.TransGen g.Edge a a

def Acyclic (g : Graph) : Prop := g.AcyclicFrom g.start

theorem AcyclicFrom.of_edge {a b : String} (h : g.AcyclicFrom a) (edge : g.Edge a b) :
    g.AcyclicFrom b := fun c reached => h c (.head edge reached)

/-- Where the states can be ranked so that every edge goes up there is no cycle. -/
theorem acyclic_of_rank (rank : String → ℕ)
    (up : ∀ e ∈ g.states, ∀ b ∈ e.2.targets, rank e.1 < rank b) : g.Acyclic := by
  have hedge {a b : String} (edge : g.Edge a b) : rank a < rank b := by
    obtain ⟨state, hget, hb⟩ := edge
    exact up _ (Members.mem_of_get? hget) b hb
  have hpath {a b : String} (path : Relation.TransGen g.Edge a b) : rank a < rank b := by
    induction path with
    | single edge => exact hedge edge
    | tail _ edge ih => exact ih.trans (hedge edge)
  exact fun a _ cycle => (hpath cycle).false

/-- The states of the built-in graphs, each before those to which it leads. -/
def builtinOrder : List String :=
  ["CleanInput", "ValidateInput", "GenerateAttributes", "DatabaseInsert", "DatabaseUpdate",
    "CheckPagination", "DatabasePaginate", "DatabaseSelect", "DatabaseRead", "CheckFound",
    "CheckSoftDelete"]

theorem acyclic_of_mem_builtin (h : g ∈ builtin) : g.Acyclic := by
  refine acyclic_of_rank builtinOrder.idxOf ?_
  simp only [builtin, List.mem_cons, List.not_mem_nil, or_false] at h
  rcases h with rfl | rfl | rfl | rfl | rfl <;> decide +kernel

end Graph

namespace Walk
variable {g : Graph} {tasks : Tasks σ} {ctx : Context σ} {context : Json}

/-- The states to which a walk came: those that it completed and the one where it stands. -/
def entered (visits : List Visit) (stop : Place σ) : List String :=
  visits.map (·.name) ++ [stop.state]

/-- A trail follows edges. -/
theorem Trail.reaches {a b : Place σ} {visits : List Visit}
    (trail : Trail g tasks ctx context a visits b) :
    ∀ name ∈ entered visits b, Relation.ReflTransGen g.Edge a.state name := by
  induction trail with
  | here a =>
    intro name hname
    obtain rfl := List.mem_singleton.1 hname
    exact .refl
  | step defined _ leads _ ih =>
    intro name hname
    rcases List.mem_cons.1 hname with rfl | hname
    · exact .refl
    · exact .head ⟨_, defined, leads.mem_targets⟩ (ih name hname)

/-- A trail that meets no cycle comes to no state twice. -/
theorem Trail.nodup_entered {a b : Place σ} {visits : List Visit}
    (trail : Trail g tasks ctx context a visits b) (acyclic : g.AcyclicFrom a.state) :
    (entered visits b).Nodup := by
  induction trail with
  | here a => exact List.nodup_singleton a.state
  | @step a b state output s next visits defined _ leads rest ih =>
    have edge : g.Edge a.state next := ⟨state, defined, leads.mem_targets⟩
    refine List.nodup_cons.2 ⟨fun hagain => ?_, ih (acyclic.of_edge edge)⟩
    exact acyclic a.state .refl (.head' edge (rest.reaches a.state hagain))

theorem Trail.visited_subset {a b : Place σ} {visits : List Visit}
    (trail : Trail g tasks ctx context a visits b) :
    visits.map (·.name) ⊆ g.states.keys := by
  induction trail with
  | here => exact List.nil_subset _
  | step defined _ _ _ ih =>
    exact List.cons_subset.2 ⟨List.mem_map_of_mem (Members.mem_of_get? defined), ih⟩

theorem Trail.length_le {a b : Place σ} {visits : List Visit}
    (trail : Trail g tasks ctx context a visits b) (acyclic : g.AcyclicFrom a.state) :
    visits.length ≤ g.states.length := by
  have hnodup : (visits.map (·.name)).Nodup := (trail.nodup_entered acyclic).of_append_left
  simpa [Members.keys] using (hnodup.subperm trail.visited_subset).length_le

/-- A walk whose trails are all shorter than its bound does not depend on the bound. -/
theorem walk_of_short_trails (traced : Bool) (fuel more : ℕ) (previous current : String)
    (p : Packet) (s : σ)
    (short : ∀ visits stop, Trail g tasks ctx p.context ⟨current, p.input, s⟩ visits stop →
      visits.length < fuel) :
    (walk g tasks ctx traced (fuel + more) previous current p).run s =
      (walk g tasks ctx traced fuel previous current p).run s := by
  induction fuel generalizing previous current p s with
  | zero => exact absurd (short [] _ (.here _)) (Nat.not_lt_zero _)
  | succ fuel ih =>
    rw [Nat.add_right_comm]
    simp only [walk]
    cases defined : g.states.get? current with
    | none => rfl
    | some state =>
      have hvisited := visited tasks ctx previous p s defined
      simp only [StateT.run_bind]
      generalize (visit tasks ctx current state p).run s = answer at hvisited ⊢
      obtain ⟨⟨q, exit⟩, s'⟩ := answer
      cases hvisited with
      | fails => rfl
      | final => rfl
      | @leads _ output _ next completes leads =>
        refine ih current next _ s' fun visits stop trail => ?_
        exact Nat.lt_of_succ_lt_succ (short _ stop (.step defined completes leads trail))

section
variable (g : Graph) (tasks : Tasks σ) (ctx : Context σ) (context : Json)

/-- How a run finishes where its trail has led: a final task completes there, or the run fails. -/
inductive Finishes (traced : Bool) (visits : List Visit) (stop : Place σ) :
    Packet → Except Error Unit → σ → Prop
  | final {t : TaskState} {q : Packet} {s : σ}
      (defined : g.states.get? stop.state = some (.task t)) (final : t.final = true)
      (completes : (State.task t).Completes tasks ctx stop.input stop.host q.output s)
      (history : q.history = Visit.records traced 1
        (visits ++ [⟨stop.state, .task t, stop.input, q.output⟩])) :
      Finishes traced visits stop q (.ok ()) s
  | fails {e : Error} {q : Packet} {s : σ}
      (fails : Fails g tasks ctx context (Visit.lastName "StartAt" visits) stop e s)
      (history : q.history = Visit.records traced 1 visits) :
      Finishes traced visits stop q (.error e) s

end

theorem Walked.exists_finishes {traced : Bool} {fuel : ℕ} {a : Place σ} {q : Packet}
    {result : Except Error Unit} {s : σ}
    (walked : Walked g tasks ctx context traced fuel "StartAt" a [] q result s)
    (short : ∀ visits stop, Trail g tasks ctx context a visits stop → visits.length < fuel) :
    ∃ visits stop, Trail g tasks ctx context a visits stop ∧
      Finishes g tasks ctx context traced visits stop q result s := by
  cases walked with
  | final trail defined final completes history =>
    exact ⟨_, _, trail, .final defined final completes history⟩
  | fails trail fails _ history => exact ⟨_, _, trail, .fails fails history⟩
  | givenUp trail length => exact absurd (short _ _ trail) length.not_lt

theorem Visit.map_state_records (traced : Bool) (number : ℕ) (visits : List Visit) :
    (records traced number visits).map (·.state) = visits.map (·.name) := by
  induction visits generalizing number with
  | nil => rfl
  | cons v visits ih => simp [records, record, ih]

namespace Finishes
variable {traced : Bool} {visits : List Visit} {a stop : Place σ} {q : Packet}
  {result : Except Error Unit} {s : σ}

/-- The states recorded are those entered, without the last one if it fails. -/
theorem visited_isPrefix (finishes : Finishes g tasks ctx context traced visits stop q result s) :
    q.visited <+: entered visits stop := by
  cases finishes with
  | final _ _ _ history =>
    rw [Packet.visited, history, Visit.map_state_records, List.map_append]
    exact List.prefix_refl _
  | fails _ history =>
    rw [Packet.visited, history, Visit.map_state_records]
    exact List.prefix_append _ _

theorem visited_subset (finishes : Finishes g tasks ctx context traced visits stop q result s)
    (trail : Trail g tasks ctx context a visits stop) : q.visited ⊆ g.states.keys := by
  cases finishes with
  | final defined _ _ history =>
    rw [Packet.visited, history, Visit.map_state_records, List.map_append]
    refine List.append_subset.2 ⟨trail.visited_subset, ?_⟩
    exact List.cons_subset.2 ⟨List.mem_map_of_mem (Members.mem_of_get? defined), List.nil_subset _⟩
  | fails _ history =>
    rw [Packet.visited, history, Visit.map_state_records]
    exact trail.visited_subset

end Finishes

/-- A run of an acyclic graph ends, the same way whatever bound is set to it. It comes to no state
twice and records at most as many states as the graph has. -/
theorem run_finishes (acyclic : g.Acyclic) (tasks : Tasks σ) (ctx : Context σ) (traced : Bool)
    (input context : Json) (s : σ) :
    ∃ q result t visits stop,
      (∀ patience, (run g tasks ctx traced patience { input, context }).run s = ((q, result), t)) ∧
      Trail g tasks ctx context ⟨g.start, input, s⟩ visits stop ∧
      Finishes g tasks ctx context traced visits stop q result t ∧
      (entered visits stop).Nodup ∧ q.visited.Nodup ∧ q.history.length ≤ g.states.length := by
  have short : ∀ visits stop, Trail g tasks ctx context ⟨g.start, input, s⟩ visits stop →
      visits.length < g.states.length + 1 := fun visits stop trail =>
    Nat.lt_succ_of_le (trail.length_le acyclic)
  obtain ⟨visits, stop, trail, finishes⟩ :=
    (walked g tasks ctx traced _ "StartAt" g.start { input, context } s).exists_finishes short
  have hentered := trail.nodup_entered acyclic
  have hvisited := hentered.sublist finishes.visited_isPrefix.sublist
  refine ⟨_, _, _, visits, stop, fun patience => ?_, trail, finishes, hentered, hvisited, ?_⟩
  · exact walk_of_short_trails traced _ patience "StartAt" g.start { input, context } s short
  · have hlength := (hvisited.subperm (finishes.visited_subset trail)).length_le
    simpa [Packet.visited, Members.keys] using hlength

/-- Posts without a reviewer are approved. For the others no state was written. The end leads back
to the start, but nothing follows that. -/
def review : Graph where
  start := "Ask"
  states := [
    ("Approve", .task { resource := "transform_result", next := some "Ask", final := true }),
    ("Ask", Graph.branch "$.reviewer" (.isPresent true) "Pass" "Approve"),
    ("Pass", Graph.taskTo "transform_result" "Judge")]

theorem review_finishes :
    let ctx := Store.context Blog.world Blog.registry {} Blog.post "review"
    let input := Json.obj [("reviewer", .str "ada")]
    review.Acyclic ∧ ∃ q t,
      (∀ patience, (run review Tasks.builtin ctx false patience
        { input, context := .null }).run Blog.store =
          ((q, .error (.undefinedState "Pass" "Judge")), t)) ∧
      q.visited = ["Ask", "Pass"] := by
  intro ctx input
  have acyclic : review.Acyclic :=
    Graph.acyclic_of_rank ["Ask", "Approve", "Pass"].idxOf (by decide)
  obtain ⟨q, result, t, -, -, hrun, -⟩ :=
    run_finishes acyclic Tasks.builtin ctx false input .null Blog.store
  have hresult : ((run review Tasks.builtin ctx false 0
      { input, context := .null }).run Blog.store).1.2 =
        .error (.undefinedState "Pass" "Judge") := rfl
  have hvisited : ((run review Tasks.builtin ctx false 0
      { input, context := .null }).run Blog.store).1.1.visited = ["Ask", "Pass"] := rfl
  rw [hrun 0] at hresult hvisited
  obtain rfl : result = _ := hresult
  exact ⟨acyclic, q, t, hrun, hvisited⟩

end Walk
end ModelActions
