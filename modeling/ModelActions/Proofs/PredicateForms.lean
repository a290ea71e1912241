import ModelActions.Proofs.PredicateParts

/-!
# Predicates read back

A predicate without empty lists, whose numbers are finite, is read from its JSON as what it is, also
when it stands beside members that predicates do not have. Whatever was read is such a predicate.
-/
namespace ModelActions

namespace Test

/-- The number of the test, if it has one, is finite. -/
def Finite : Test → Prop
  | numericEquals x | numericGreaterThan x | numericGreaterThanEquals x | numericLessThan x
  | numericLessThanEquals x => x.isFinite = true
  | _ => True

/-- A test is read back under its key. -/
theorem exists_reader? {t : Test} (h : t.Finite) :
    ∃ read, reader? t.key = some read ∧ t.toJson.orNull read = some (some t) := by
  cases t with
  | numericEquals x | numericGreaterThan x | numericGreaterThanEquals x | numericLessThan x
  | numericLessThanEquals x =>
    have hx : x.isFinite = true := h
    have hfloat : Json.ofFloat x = .float x hx := dif_pos hx
    refine ⟨_, rfl, ?_⟩
    rw [toJson, hfloat]
    rfl
  | _ => exact ⟨_, rfl, rfl⟩

/-- Whatever is read as a test has a finite number, if any. -/
theorem finite_of_reader? {key : String} {read : Json → Option Test}
    (hkey : reader? key = some read) {value : Json} {t : Test} (h : read value = some t) :
    t.Finite := by
  unfold reader? at hkey
  split at hkey <;> cases hkey <;> obtain ⟨a, ha, rfl⟩ := Option.map_eq_some_iff.1 h
  all_goals first | trivial | exact Json.isFinite_of_float? ha

end Test

namespace Predicate

mutual
/-- There are no empty lists at any depth, and numbers are finite. -/
def Encodable : Predicate → Prop
  | .and ps => ps ≠ [] ∧ EncodableAll ps
  | .or ps => ps ≠ [] ∧ EncodableAll ps
  | .not p => Encodable p
  | .test _ t => t.Finite

def EncodableAll : List Predicate → Prop
  | [] => True
  | p :: ps => Encodable p ∧ EncodableAll ps
end

/-- A member that predicates do not have is passed over. -/
theorem part_unknown {key : String} (h : key ∉ fields) (value : Json) :
    part key value = .ok id := by
  have hne : key ≠ "And" ∧ key ≠ "Or" ∧ key ≠ "Not" ∧ key ≠ "Variable" :=
    ne_of_test_or_unknown (.inr h)
  have hfields : ∀ key ∈ comparisons, key ∈ fields := by decide
  have hreader : Test.reader? key = none := reader?_eq_none_iff.2 fun hmem => h (hfields key hmem)
  rw [part, if_neg hne.1, if_neg hne.2.1, if_neg hne.2.2.1, if_neg hne.2.2.2, hreader]

theorem partsOfMembers_cons_unknown {key : String} (h : key ∉ fields) (value : Json)
    (members : Members Json) :
    partsOfMembers ((key, value) :: members) = partsOfMembers members := by
  rw [partsOfMembers, part_unknown h]
  cases partsOfMembers members <;> rfl

/-- Only the members that predicates have count. -/
theorem partsOfMembers_filter (members : Members Json) :
    partsOfMembers (members.filter fun e => decide (e.1 ∈ fields)) = partsOfMembers members := by
  induction members with
  | nil => rfl
  | cons e members ih =>
    obtain ⟨key, value⟩ := e
    rw [List.filter_cons]
    split
    · rw [partsOfMembers, partsOfMembers, ih]
    · next h =>
      rw [partsOfMembers_cons_unknown (by simpa using h), ih]

theorem partsOfMembers_insert {key : String} (h : key ∉ fields) (value : Json)
    (members : Members Json) :
    partsOfMembers (members.insert key value) = partsOfMembers members := by
  rw [← partsOfMembers_filter (members.insert key value), ← partsOfMembers_filter members]
  congr 1
  induction members with
  | nil => simp [Members.insert, h]
  | cons e members ih =>
    obtain ⟨k, v⟩ := e
    rw [Members.insert]
    split
    · next hk => simp [hk, h]
    · split
      · rw [List.filter_cons, if_neg (by simpa using h)]
      · rw [List.filter_cons, List.filter_cons, ih]

theorem ofJson_filter (members : Members Json) :
    ofJson (.obj (members.filter fun e => decide (e.1 ∈ fields))) = ofJson (.obj members) := by
  rw [ofJson, ofJson, partsOfMembers_filter]

theorem ofJson_insert {key : String} (h : key ∉ fields) (value : Json) (members : Members Json) :
    ofJson (.obj (members.insert key value)) = ofJson (.obj members) := by
  rw [ofJson, ofJson, partsOfMembers_insert h]

theorem partsOfMembers_single {key : String} {value : Json} {add : Parts → Parts}
    (h : part key value = .ok add) : partsOfMembers [(key, value)] = .ok (add {}) := by
  rw [partsOfMembers, h, partsOfMembers]
  rfl

/-- The members of a test are read as its variable and its test. -/
theorem partsOfMembers_test {t : Test} (h : t.Finite) (name : String) :
    partsOfMembers [(t.key, t.toJson), ("Variable", .str name)] =
      .ok { variableName := some name, tests := [t] } := by
  obtain ⟨read, hkey, hread⟩ := Test.exists_reader? h
  obtain ⟨hand, hor, hnot, hname⟩ :=
    ne_of_test_or_unknown (.inl (isSome_reader?_iff.1 (by rw [hkey]; rfl)))
  have htest : part t.key t.toJson = .ok fun r => { r with tests := t :: r.tests } := by
    rw [part, if_neg hand, if_neg hor, if_neg hnot, if_neg hname, hkey]
    simp only [Misreading.orNull, hread]
    rfl
  have hvariable : part "Variable" (.str name) =
      .ok fun r => { r with variableName := some name } := by
    rw [part]
    rfl
  rw [partsOfMembers, htest, partsOfMembers_single hvariable]
  rfl

mutual
theorem ofJson_toJson {p : Predicate} (h : p.Encodable) : ofJson p.toJson = .ok p := by
  match p with
  | .and ps =>
    have hpart : part "And" (.arr (toJsonAll ps)) = .ok fun r => { r with all := some ps } := by
      rw [part, if_pos rfl, listOrNull, ofJsonAll_toJsonAll h.2]
      rfl
    rw [toJson, toMembers, ofJson, partsOfMembers_single hpart]
    have hparts : ofParts { all := some ps } = .ok (.and ps) := by simp [ofParts, h.1]
    exact hparts
  | .or ps =>
    have hpart : part "Or" (.arr (toJsonAll ps)) = .ok fun r => { r with any := some ps } := by
      rw [part, if_neg (by decide), if_pos rfl, listOrNull, ofJsonAll_toJsonAll h.2]
      rfl
    rw [toJson, toMembers, ofJson, partsOfMembers_single hpart]
    have hparts : ofParts { any := some ps } = .ok (.or ps) := by simp [ofParts, h.1]
    exact hparts
  | .not p =>
    have hp : ofJson (.obj p.toMembers) = .ok p := ofJson_toJson h
    have hpart : part "Not" (.obj p.toMembers) = .ok fun r => { r with inner := some p } := by
      rw [part, if_neg (by decide), if_neg (by decide), if_pos rfl, orNull, hp]
      · rfl
      · simp
    rw [toJson, toMembers, ofJson, partsOfMembers_single hpart]
    rfl
  | .test name t =>
    rw [toJson, toMembers, ofJson, partsOfMembers_test h]
    rfl

theorem ofJsonAll_toJsonAll {ps : List Predicate} (h : EncodableAll ps) :
    ofJsonAll (toJsonAll ps) = .ok ps := by
  match ps with
  | [] =>
    rw [toJsonAll, ofJsonAll]
  | p :: ps =>
    have hp : ofJson (.obj (toMembers p)) = .ok p := ofJson_toJson h.1
    rw [toJsonAll, ofJsonAll, hp, ofJsonAll_toJsonAll h.2]
    rfl
end

/-- The predicates among some parts are encodable. -/
structure Parts.Encodable (parts : Parts) : Prop where
  all : ∀ ps ∈ parts.all, EncodableAll ps
  any : ∀ ps ∈ parts.any, EncodableAll ps
  inner : ∀ p ∈ parts.inner, p.Encodable
  tests : ∀ t ∈ parts.tests, t.Finite

theorem Parts.encodable_empty : Parts.Encodable {} where
  all _ h := nomatch h
  any _ h := nomatch h
  inner _ h := nomatch h
  tests _ h := nomatch h

theorem encodable_of_ofParts {parts : Parts} (h : parts.Encodable) {p : Predicate}
    (hp : ofParts parts = .ok p) : p.Encodable := by
  rw [ofParts] at hp
  split at hp
  · cases hp
  split at hp
  · cases hp
  split at hp
  · cases hp
  · next hall hany _ =>
    dsimp only at hp
    split at hp
    · next one hone =>
      cases hp
      have hmem := List.mem_singleton_self p
      simp only [← hone, List.mem_append, Option.mem_toList, Option.map_eq_some_iff,
        List.mem_map] at hmem
      rcases hmem with ((⟨ps, hps, rfl⟩ | ⟨ps, hps, rfl⟩) | ⟨q, hq, rfl⟩) | ⟨t, ht, rfl⟩
      · exact ⟨fun hnil => hall (any_isEmpty_iff.2 (hnil ▸ hps)), h.all ps hps⟩
      · exact ⟨fun hnil => hany (any_isEmpty_iff.2 (hnil ▸ hps)), h.any ps hps⟩
      · exact h.inner q hq
      · exact h.tests t ht
    · cases hp
    · cases hp

/-- What is read where null stands for nothing is read from the value. -/
theorem read_of_misreading_orNull {α : Type} {read : Json → Option α} {value : Json}
    {o : Option α} (h : Misreading.orNull read value = .ok o) {a : α} (ha : a ∈ o) :
    read value = some a := by
  rcases Misreading.orNull_eq_ok_iff.1 h with ⟨-, rfl⟩ | ⟨-, a', hread, rfl⟩
  · cases ha
  · cases ha
    exact hread

mutual
theorem encodable_of_ofJson {j : Json} {p : Predicate} (h : ofJson j = .ok p) : p.Encodable := by
  match j with
  | .obj members =>
    rw [ofJson] at h
    obtain ⟨parts, hparts, h⟩ := bind_eq_ok.1 h
    exact encodable_of_ofParts (encodable_of_partsOfMembers hparts) h
  | .arr items =>
    rw [ofJson] at h
    obtain ⟨parts, hparts, h⟩ := bind_eq_ok.1 h
    exact encodable_of_ofParts (encodable_of_partsOfItems hparts) h
  | .null | .bool _ | .int _ | .float _ _ | .str _ =>
    rw [ofJson] at h
    · cases h
    all_goals simp
termination_by (sizeOf j, 0)

theorem encodable_of_partsOfMembers {members : List (String × Json)} {parts : Parts}
    (h : partsOfMembers members = .ok parts) : parts.Encodable := by
  match members with
  | [] =>
    rw [partsOfMembers] at h
    cases h
    exact Parts.encodable_empty
  | (key, value) :: members =>
    rw [partsOfMembers] at h
    obtain ⟨add, hadd, h⟩ := bind_eq_ok.1 h
    obtain ⟨rest, hrest, h⟩ := bind_eq_ok.1 h
    cases h
    exact encodable_of_part hadd (encodable_of_partsOfMembers hrest)
termination_by (sizeOf members, 0)

theorem encodable_of_partsOfItems {keys : List String} {items : List Json} {parts : Parts}
    (h : partsOfItems keys items = .ok parts) : parts.Encodable := by
  match keys, items with
  | _, [] =>
    rw [partsOfItems] at h
    cases h
    exact Parts.encodable_empty
  | [], _ :: _ =>
    rw [partsOfItems] at h
    cases h
  | key :: keys, value :: items =>
    rw [partsOfItems] at h
    obtain ⟨add, hadd, h⟩ := bind_eq_ok.1 h
    obtain ⟨rest, hrest, h⟩ := bind_eq_ok.1 h
    cases h
    exact encodable_of_part hadd (encodable_of_partsOfItems hrest)
termination_by (sizeOf items, 0)

theorem encodable_of_part {key : String} {value : Json} {add : Parts → Parts}
    (h : part key value = .ok add) {rest : Parts} (hrest : rest.Encodable) :
    (add rest).Encodable := by
  obtain ⟨all, any, inner, tests⟩ := hrest
  have hadds := adds_of_part h
  clear h
  cases hadds with
  | all h => exact ⟨fun ps hps => encodable_of_listOrNull h hps, any, inner, tests⟩
  | any h => exact ⟨all, fun ps hps => encodable_of_listOrNull h hps, inner, tests⟩
  | inner h => exact ⟨all, any, fun p hp => encodable_of_orNull h hp, tests⟩
  | name h => exact ⟨all, any, inner, tests⟩
  | test hkey h =>
    refine ⟨all, any, inner, fun t ht => ?_⟩
    rcases List.mem_append.1 ht with ht | ht
    · exact Test.finite_of_reader? hkey (read_of_misreading_orNull h (Option.mem_toList.1 ht))
    · exact tests t ht
  | unknown h => exact ⟨all, any, inner, tests⟩
termination_by (sizeOf value, 2)

theorem encodable_of_orNull {value : Json} {o : Option Predicate} (h : orNull value = .ok o)
    {p : Predicate} (hp : p ∈ o) : p.Encodable := by
  match value with
  | .null =>
    rw [orNull_null] at h
    cases h
    cases hp
  | .bool _ | .int _ | .float _ _ | .str _ | .arr _ | .obj _ =>
    rw [orNull] at h
    · obtain ⟨p', hp', h⟩ := bind_eq_ok.1 h
      cases h
      cases hp
      exact encodable_of_ofJson hp'
    · simp
termination_by (sizeOf value, 1)

theorem encodable_of_listOrNull {value : Json} {o : Option (List Predicate)}
    (h : listOrNull value = .ok o) {ps : List Predicate} (hps : ps ∈ o) : EncodableAll ps := by
  match value with
  | .null =>
    rw [listOrNull_null] at h
    cases h
    cases hps
  | .arr items =>
    rw [listOrNull] at h
    obtain ⟨ps', hps', h⟩ := bind_eq_ok.1 h
    cases h
    cases hps
    exact encodable_of_ofJsonAll hps'
  | .bool _ | .int _ | .float _ _ | .str _ | .obj _ =>
    rw [listOrNull] at h
    · cases h
    all_goals simp
termination_by (sizeOf value, 1)

theorem encodable_of_ofJsonAll {items : List Json} {ps : List Predicate}
    (h : ofJsonAll items = .ok ps) : EncodableAll ps := by
  match items with
  | [] =>
    rw [ofJsonAll] at h
    cases h
    trivial
  | j :: js =>
    rw [ofJsonAll] at h
    obtain ⟨p, hp, h⟩ := bind_eq_ok.1 h
    obtain ⟨ps', hps', h⟩ := bind_eq_ok.1 h
    cases h
    exact ⟨encodable_of_ofJson hp, encodable_of_ofJsonAll hps'⟩
termination_by (sizeOf items, 0)
end

end Predicate
end ModelActions
