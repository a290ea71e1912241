import ModelActions.Graph.Builtin
import ModelActions.Graph.Wire
import ModelActions.Proofs.PredicateForms
import ModelActions.Proofs.RecordForms
import ModelActions.Proofs.WrittenPredicates

/-!
# Graphs read back

A graph that was read is read from its own JSON again: `Next` stands beside the members of a rule's
predicate, and `Type` beside the fields of a state, without being taken for one of them.
-/
namespace ModelActions

namespace Misreading

theorem ofOption_eq_ok {α : Type} {o : Option α} {a : α} : ofOption o = .ok a ↔ o = some a := by
  cases o <;> simp [ofOption]

theorem field_eq {α : Type} (read : Json → Except Misreading α) {r : Members Json} {key : String}
    {j : Json} {a : α} (h : r.get? key = some j) (hread : read j = .ok a) :
    field r key read = .ok (some a) := by
  rw [field, h]
  exact bind_eq_ok.2 ⟨a, hread, rfl⟩

end Misreading

/-- What is read from each item is what was written there. -/
theorem mapM_eq_ok_of_forall {ε α β : Type} {f : α → Except ε β} {g : β → α} {bs : List β}
    (h : ∀ b ∈ bs, f (g b) = .ok b) : (bs.map g).mapM f = .ok bs := by
  induction bs with
  | nil => rfl
  | cons b bs ih =>
    have hbs := ih fun b' hb' => h b' (List.mem_cons_of_mem b hb')
    rw [List.map_cons, List.mapM_cons, h b List.mem_cons_self, hbs]
    rfl

namespace ChoiceRule

theorem ofJson_toJson {r : ChoiceRule} (h : r.predicate.Encodable) : ofJson r.toJson = .ok r := by
  have hnext : (r.predicate.toMembers.insert "Next" (.str r.next)).required "Next" Json.string? =
      some r.next := Members.required_eq Json.string? (Members.get?_insert_self ..) rfl
  have hunknown : "Next" ∉ Predicate.fields := by decide
  have hpredicate : Predicate.ofJson r.toJson = .ok r.predicate := by
    rw [toJson, Predicate.ofJson_insert hunknown]
    exact Predicate.ofJson_toJson h
  exact bind_eq_ok.2 ⟨_, rfl, bind_eq_ok.2 ⟨r.next, Misreading.ofOption_eq_ok.2 hnext,
    bind_eq_ok.2 ⟨r.predicate, hpredicate, rfl⟩⟩⟩

theorem encodable_of_ofJson {j : Json} {r : ChoiceRule} (h : ofJson j = .ok r) :
    r.predicate.Encodable := by
  obtain ⟨members, -, h⟩ := bind_eq_ok.1 h
  obtain ⟨next, -, h⟩ := bind_eq_ok.1 h
  obtain ⟨p, hp, h⟩ := bind_eq_ok.1 h
  cases h
  exact Predicate.encodable_of_ofJson hp

end ChoiceRule

/-- The predicates of a state's rules are encodable. -/
def State.Encodable : State → Prop
  | .task _ => True
  | .choice c => ∀ r ∈ c.rules, r.predicate.Encodable

/-- What was written field by field is found under each name, where only the `Type` was put
besides. -/
theorem get?_erase_type (fields : Members (Option Json)) (distinct : fields.keys.Nodup)
    (key : String) (h : key ≠ "Type") :
    ((Members.written fields).erase "Type").get? key = (fields.get? key).join := by
  rw [Members.get?_erase, if_neg h, Members.get?_written fields distinct]

namespace TaskState

theorem nodup_keys (t : TaskState) : (Members.keys t.toMembers).Nodup := by
  simp [toMembers, Members.keys]

theorem ofJson?_toMembers (t : TaskState) :
    ofJson? (.obj ((Members.written t.toMembers).erase "Type")) = some t := by
  have hget := get?_erase_type t.toMembers t.nodup_keys
  have hresource := Members.required_eq Json.string? (hget "Resource" (by decide)) rfl
  have hnext := Members.optional_eq Json.string? (hget "Next" (by decide)) fun s _ => rfl
  have hfinal := Members.defaulted_eq Json.bool? false (hget "End" (by decide)) rfl
  simp [ofJson?, Json.record?, Json.hasSurplus, Json.namedFields?, hresource, hnext, hfinal]

end TaskState

namespace ChoiceState

theorem nodup_keys (c : ChoiceState) : (Members.keys c.toMembers).Nodup := by
  simp [toMembers, Members.keys]

theorem ofJson_toMembers {c : ChoiceState} (h : ∀ r ∈ c.rules, r.predicate.Encodable) :
    ofJson (.obj ((Members.written c.toMembers).erase "Type")) = .ok c := by
  have hget := get?_erase_type c.toMembers c.nodup_keys
  have hchoices := Members.required_eq Json.items? (hget "Choices" (by decide)) rfl
  have hdefault := Members.optional_eq Json.string? (hget "Default" (by decide)) fun s _ => rfl
  have hrules := mapM_eq_ok_of_forall fun r hr => ChoiceRule.ofJson_toJson (h r hr)
  exact bind_eq_ok.2 ⟨_, rfl, bind_eq_ok.2 ⟨_, Misreading.ofOption_eq_ok.2 hchoices,
    bind_eq_ok.2 ⟨_, hrules, bind_eq_ok.2 ⟨_, Misreading.ofOption_eq_ok.2 hdefault, rfl⟩⟩⟩⟩

theorem encodable_of_ofJson {j : Json} {c : ChoiceState} (h : ofJson j = .ok c) :
    ∀ r ∈ c.rules, r.predicate.Encodable := by
  obtain ⟨members, -, h⟩ := bind_eq_ok.1 h
  obtain ⟨choices, -, h⟩ := bind_eq_ok.1 h
  obtain ⟨rules, hrules, h⟩ := bind_eq_ok.1 h
  obtain ⟨default, -, h⟩ := bind_eq_ok.1 h
  split at h
  · cases h
  · cases h
    intro r hr
    obtain ⟨j, -, hj⟩ := exists_of_mem_mapM hrules hr
    exact ChoiceRule.encodable_of_ofJson hj

end ChoiceState

namespace State

/-- The kind of a state stands apart from its other fields. -/
theorem untag?_object (fields : Members (Option Json)) (distinct : fields.keys.Nodup)
    (kind : String) (h : fields.get? "Type" = some (some (.str kind))) :
    untag? (.object fields) = some (kind, .obj ((Members.written fields).erase "Type")) := by
  have hkind : (Members.written fields).get? "Type" = some (.str kind) := by
    rw [Members.get?_written fields distinct, h]
    rfl
  rw [Json.object_eq, untag?, hkind]
  rfl

theorem ofJson_toJson {s : State} (h : s.Encodable) : ofJson s.toJson = .ok s := by
  cases s with
  | task t =>
    have huntag := untag?_object t.toMembers t.nodup_keys "Task" rfl
    exact bind_eq_ok.2 ⟨_, Misreading.ofOption_eq_ok.2 huntag,
      bind_eq_ok.2 ⟨t, Misreading.ofOption_eq_ok.2 t.ofJson?_toMembers, rfl⟩⟩
  | choice c =>
    have huntag := untag?_object c.toMembers c.nodup_keys "Choice" rfl
    exact bind_eq_ok.2 ⟨_, Misreading.ofOption_eq_ok.2 huntag,
      bind_eq_ok.2 ⟨c, ChoiceState.ofJson_toMembers h, rfl⟩⟩

theorem encodable_of_ofJson {j : Json} {s : State} (h : ofJson j = .ok s) : s.Encodable := by
  obtain ⟨⟨kind, body⟩, -, h⟩ := bind_eq_ok.1 h
  split at h
  · obtain ⟨t, -, h⟩ := bind_eq_ok.1 h
    cases h
    trivial
  · obtain ⟨c, hc, h⟩ := bind_eq_ok.1 h
    cases h
    exact ChoiceState.encodable_of_ofJson hc
  · cases h

end State

namespace Graph

theorem statesOf_toJson {states : Members State} (h : ∀ e ∈ states, e.2.Encodable) :
    statesOf (.obj (states.map fun e => (e.1, e.2.toJson))) = .ok states := by
  refine bind_eq_ok.2 ⟨_, rfl, mapM_eq_ok_of_forall fun e he => ?_⟩
  exact bind_eq_ok.2 ⟨e.2, State.ofJson_toJson (h e he), rfl⟩

theorem ofJson_toJson {g : Graph} (h : ∀ e ∈ g.states, e.2.Encodable) :
    ofJson g.toJson = .ok g := by
  have hget := Members.get?_written [("Comment", g.comment.map Json.str),
    ("StartAt", some (.str g.start)),
    ("States", some (.obj (g.states.map fun e => (e.1, e.2.toJson))))] (by simp [Members.keys])
  have hcomment := Members.optional_eq Json.string? (hget "Comment") fun s _ => rfl
  have hstart := Misreading.field_eq (fun j => Misreading.ofOption j.string?) (hget "StartAt") rfl
  have hstates := Misreading.field_eq statesOf (hget "States") (statesOf_toJson h)
  exact bind_eq_ok.2 ⟨_, rfl, bind_eq_ok.2 ⟨_, Misreading.ofOption_eq_ok.2 hcomment,
    bind_eq_ok.2 ⟨_, hstart, bind_eq_ok.2 ⟨_, hstates, rfl⟩⟩⟩⟩

theorem encodable_of_statesOf {j : Json} {states : Members State} (h : statesOf j = .ok states) :
    ∀ e ∈ states, e.2.Encodable := by
  obtain ⟨members, -, h⟩ := bind_eq_ok.1 h
  intro e he
  obtain ⟨e', -, h⟩ := exists_of_mem_mapM h he
  obtain ⟨s, hs, h⟩ := bind_eq_ok.1 h
  cases h
  exact State.encodable_of_ofJson hs

theorem encodable_of_ofJson {j : Json} {g : Graph} (h : ofJson j = .ok g) :
    ∀ e ∈ g.states, e.2.Encodable := by
  obtain ⟨r, -, h⟩ := bind_eq_ok.1 h
  obtain ⟨comment, -, h⟩ := bind_eq_ok.1 h
  obtain ⟨start, -, h⟩ := bind_eq_ok.1 h
  obtain ⟨states, hstates, h⟩ := bind_eq_ok.1 h
  split at h
  · cases h
  · obtain ⟨start, -, h⟩ := bind_eq_ok.1 h
    obtain ⟨states', hstates', h⟩ := bind_eq_ok.1 h
    cases h
    obtain rfl := Misreading.ofOption_eq_ok.1 hstates'
    unfold Misreading.field at hstates
    split at hstates
    · obtain ⟨read, hread, hstates⟩ := bind_eq_ok.1 hstates
      cases hstates
      exact encodable_of_statesOf hread
    · cases hstates

theorem encodable_taskTo (resource next : String) : (taskTo resource next).Encodable := trivial

theorem encodable_taskEnd (resource : String) : (taskEnd resource).Encodable := trivial

theorem encodable_branch {test : Test} (h : test.Finite) (name next other : String) :
    (branch name test next other).Encodable := by
  intro r hr
  cases List.mem_singleton.1 hr
  exact h

theorem encodable_of_mem_builtin : ∀ g ∈ builtin, ∀ e ∈ g.states, e.2.Encodable := by
  have htest : (Test.isNull true).Finite ∧ (Test.isPresent true).Finite ∧
      (Test.booleanEquals true).Finite := ⟨trivial, trivial, trivial⟩
  simp only [builtin, create, readOne, readList, update, delete, List.forall_mem_cons,
    encodable_taskTo, encodable_taskEnd, encodable_branch, htest]
  simp

end Graph

/-- Predicates and graphs are read from their JSON. An object whose predicates are objects at every
depth is read as a predicate if and only if it follows the rule for one, and other members of it do
not matter. What can be read at all is read again from the JSON that it is written as. -/
theorem predicates_and_graphs_read_back :
    (∀ members : Members Json, Predicate.ByName (.obj members) →
      ((∃ p, Predicate.ofJson (.obj members) = .ok p) ↔ Predicate.WellWritten (.obj members))) ∧
    (∀ members : Members Json,
      Predicate.ofJson (.obj (members.filter fun e => decide (e.1 ∈ Predicate.fields))) =
        Predicate.ofJson (.obj members)) ∧
    (∀ p : Predicate, p.Encodable → Predicate.ofJson p.toJson = .ok p) ∧
    ∀ (j : Json) (g : Graph), Graph.ofJson j = .ok g → Graph.ofJson g.toJson = .ok g :=
  ⟨fun _ => Predicate.ofJson_ok_iff, Predicate.ofJson_filter, fun _ => Predicate.ofJson_toJson,
    fun _ _ h => Graph.ofJson_toJson (Graph.encodable_of_ofJson h)⟩

namespace Graph

/-- The rule by which reading one row ends where none was found, with a test that is null. -/
def notFoundRule : Members Json :=
  [("IsNull", .bool true), ("IsString", .null), ("Next", .str "NotFound"), ("Variable", .str "$")]

theorem readOne_read_back :
    (Predicate.ByName (.obj notFoundRule) ∧
      ((∃ p, Predicate.ofJson (.obj notFoundRule) = .ok p) ↔
        Predicate.WellWritten (.obj notFoundRule))) ∧
    (Predicate.Encodable (.not (.test "$" (.isNull true))) ∧
      Predicate.ofJson (Predicate.toJson (.not (.test "$" (.isNull true)))) =
        .ok (.not (.test "$" (.isNull true)))) ∧
    ofJson readOne.toJson = .ok readOne := by
  obtain ⟨hrule, -, hpredicate, hgraph⟩ := predicates_and_graphs_read_back
  have byName : Predicate.ByName (.obj notFoundRule) := by
    simp [notFoundRule, Predicate.ByName, Predicate.ByNameIn, Members.keys]
  have encodable : Predicate.Encodable (.not (.test "$" (.isNull true))) := trivial
  have hread : ofJson readOne.toJson = .ok readOne :=
    ofJson_toJson (encodable_of_mem_builtin readOne (by simp [builtin]))
  exact ⟨⟨byName, hrule notFoundRule byName⟩, ⟨encodable, hpredicate _ encodable⟩,
    hgraph readOne.toJson readOne hread⟩

end Graph
end ModelActions
