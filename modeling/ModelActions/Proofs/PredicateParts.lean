import Mathlib.Data.List.Nodup
import Mathlib.Logic.ExistsUnique
import ModelActions.Choice.Wire
import ModelActions.Proofs.Computation

/-!
# The parts of a predicate

What the members of an object add to the parts that a predicate is made of: how many of them there
are, and whether they amount to a predicate.
-/
namespace ModelActions

/-- The value of a member, null if there is none. -/
def Members.valueOf (ms : Members Json) (key : String) : Json := (ms.get? key).getD .null

/-- The member is there and not null. -/
def Members.Gives (ms : Members Json) (key : String) : Prop := (ms.valueOf key).isNull = false

namespace Members

theorem valueOf_cons_self (key : String) (value : Json) (ms : Members Json) :
    valueOf ((key, value) :: ms) key = value := by
  rw [valueOf, get?_cons, if_pos rfl, Option.getD_some]

theorem valueOf_cons_of_ne {key other : String} (h : key ≠ other) (value : Json)
    (ms : Members Json) : valueOf ((key, value) :: ms) other = valueOf ms other := by
  rw [valueOf, get?_cons, if_neg h]
  rfl

theorem valueOf_of_not_mem {ms : Members Json} {key : String} (h : key ∉ ms.keys) :
    ms.valueOf key = .null := by
  rw [valueOf, get?_of_not_mem h]
  rfl

theorem valueOf_of_mem {ms : Members Json} (h : ms.keys.Nodup) {e : String × Json} (he : e ∈ ms) :
    ms.valueOf e.1 = e.2 := by
  induction ms with
  | nil => cases he
  | cons e' ms ih =>
    obtain ⟨hkey, hms⟩ := List.nodup_cons.1 h
    rcases List.mem_cons.1 he with rfl | he
    · exact valueOf_cons_self e.1 e.2 ms
    · have hne : e'.1 ≠ e.1 := fun heq => hkey (List.mem_map.2 ⟨e, he, heq.symm⟩)
      exact (valueOf_cons_of_ne hne e'.2 ms).trans (ih hms he)

theorem mem_of_gives {ms : Members Json} {key : String} (h : ms.Gives key) :
    (key, ms.valueOf key) ∈ ms := by
  unfold Gives valueOf at h
  cases hget : ms.get? key with
  | none =>
    rw [hget] at h
    cases h
  | some value =>
    rw [valueOf, hget]
    exact mem_of_get? hget

/-- One member satisfies a test of keys and is not null if and only if there is one such key. -/
theorem length_filter_eq_one {ms : Members Json} (h : ms.keys.Nodup) (names : List String) :
    (ms.filter fun e => decide (e.1 ∈ names) && !e.2.isNull).length = 1 ↔
      ∃! key, key ∈ names ∧ ms.Gives key := by
  let entries := ms.filter fun e => decide (e.1 ∈ names) && !e.2.isNull
  have hmem (e : String × Json) : e ∈ entries ↔
      e.1 ∈ names ∧ ms.Gives e.1 ∧ ms.valueOf e.1 = e.2 := by
    rw [List.mem_filter, Bool.and_eq_true, decide_eq_true_iff, Bool.not_eq_true']
    constructor
    · rintro ⟨he, hname, hnull⟩
      have hvalue := valueOf_of_mem h he
      exact ⟨hname, by rwa [Gives, hvalue], hvalue⟩
    · rintro ⟨hname, hgives, hvalue⟩
      have he := mem_of_gives hgives
      rw [Gives, hvalue] at hgives
      rw [hvalue] at he
      exact ⟨he, hname, hgives⟩
  have hnodup : entries.Nodup := (List.Nodup.of_map Prod.fst h).filter _
  change entries.length = 1 ↔ _
  constructor
  · intro hone
    obtain ⟨e, he⟩ := List.length_eq_one_iff.1 hone
    rw [he] at hmem
    have hself := (hmem e).1 List.mem_cons_self
    refine ⟨e.1, ⟨hself.1, hself.2.1⟩, fun key hkey => ?_⟩
    have hother := (hmem (key, ms.valueOf key)).2 ⟨hkey.1, hkey.2, rfl⟩
    exact congrArg Prod.fst (List.mem_singleton.1 hother)
  · rintro ⟨key, hkey, hunique⟩
    have hall (e : String × Json) : e ∈ entries → e = (key, ms.valueOf key) := by
      intro he
      obtain ⟨hname, hgives, hvalue⟩ := (hmem e).1 he
      obtain rfl := hunique e.1 ⟨hname, hgives⟩
      exact Prod.ext rfl hvalue.symm
    have hself := (hmem (key, ms.valueOf key)).2 ⟨hkey.1, hkey.2, rfl⟩
    cases hentries : entries with
    | nil =>
      rw [hentries] at hself
      cases hself
    | cons e rest =>
      rw [hentries] at hall hnodup
      refine congrArg (· + 1) (List.length_eq_zero_iff.2 (List.eq_nil_iff_forall_not_mem.2 ?_))
      intro e' he'
      have hsame := (hall e' (List.mem_cons_of_mem e he')).trans (hall e List.mem_cons_self).symm
      exact (List.nodup_cons.1 hnodup).1 (hsame ▸ he')

end Members

theorem Misreading.orNull_eq_ok_iff {α : Type} {read : Json → Option α} {value : Json}
    {o : Option α} : orNull read value = .ok o ↔
      value.isNull = true ∧ o = none ∨
        value.isNull = false ∧ ∃ a, read value = some a ∧ o = some a := by
  cases value with
  | null => simp [orNull, Json.orNull, Json.isNull, eq_comm]
  | _ => simp only [orNull, Json.orNull, Json.isNull]; cases read _ <;> simp [eq_comm]

namespace Predicate

/-- The fields that compare a variable. -/
def comparisons : List String :=
  ["StringEquals", "BooleanEquals", "IsBoolean", "IsNull", "IsPresent", "IsNumeric", "IsString",
    "NumericEquals", "NumericGreaterThan", "NumericGreaterThanEquals", "NumericLessThan",
    "NumericLessThanEquals"]

def combinators : List String := ["And", "Or", "Not"]

/-- What a member adds to the parts of a predicate. -/
inductive Adds : String → Json → (Parts → Parts) → Prop
  | all {value : Json} {ps : Option (List Predicate)} (h : listOrNull value = .ok ps) :
    Adds "And" value fun r => { r with all := ps }
  | any {value : Json} {ps : Option (List Predicate)} (h : listOrNull value = .ok ps) :
    Adds "Or" value fun r => { r with any := ps }
  | inner {value : Json} {p : Option Predicate} (h : orNull value = .ok p) :
    Adds "Not" value fun r => { r with inner := p }
  | name {value : Json} {name : Option String}
    (h : Misreading.orNull Json.string? value = .ok name) :
    Adds "Variable" value fun r => { r with variableName := name }
  | test {key : String} {value : Json} {read : Json → Option Test} {t : Option Test}
    (hkey : Test.reader? key = some read) (h : Misreading.orNull read value = .ok t) :
    Adds key value fun r => { r with tests := t.toList ++ r.tests }
  | unknown {key : String} {value : Json} (h : key ∉ fields) : Adds key value id

/-- The names of the tests are those that a value is read under. -/
theorem isSome_reader?_iff {key : String} :
    (Test.reader? key).isSome = true ↔ key ∈ comparisons := by
  constructor
  · intro h
    by_contra hkey
    unfold Test.reader? at h
    split at h <;> first | exact hkey (by decide) | cases h
  · have hall : ∀ key ∈ comparisons, (Test.reader? key).isSome = true := by decide
    exact hall key

theorem reader?_eq_none_iff {key : String} : Test.reader? key = none ↔ key ∉ comparisons := by
  rw [← Option.not_isSome_iff_eq_none, isSome_reader?_iff]

theorem not_mem_fields {key : String} (hand : key ≠ "And") (hor : key ≠ "Or") (hnot : key ≠ "Not")
    (hname : key ≠ "Variable") (htest : key ∉ comparisons) : key ∉ fields := by
  have hfields : ∀ key ∈ fields, key = "And" ∨ key = "Or" ∨ key = "Not" ∨ key = "Variable" ∨
      key ∈ comparisons := by decide
  intro h
  rcases hfields key h with h | h | h | h | h <;> contradiction

theorem adds_of_part {key : String} {value : Json} {add : Parts → Parts}
    (h : part key value = .ok add) : Adds key value add := by
  rw [part] at h
  split at h
  · next hkey =>
    obtain ⟨ps, hps, h⟩ := bind_eq_ok.1 h
    cases h
    exact hkey ▸ .all hps
  split at h
  · next hkey =>
    obtain ⟨ps, hps, h⟩ := bind_eq_ok.1 h
    cases h
    exact hkey ▸ .any hps
  split at h
  · next hkey =>
    obtain ⟨p, hp, h⟩ := bind_eq_ok.1 h
    cases h
    exact hkey ▸ .inner hp
  split at h
  · next hkey =>
    obtain ⟨name, hname, h⟩ := bind_eq_ok.1 h
    cases h
    exact hkey ▸ .name hname
  split at h
  · next hkey =>
    obtain ⟨t, ht, h⟩ := bind_eq_ok.1 h
    cases h
    exact .test hkey ht
  · next hand hor hnot hname _ hkey =>
    cases h
    exact .unknown (not_mem_fields hand hor hnot hname (reader?_eq_none_iff.1 hkey))

theorem Adds.of_cons {key : String} {value : Json} {members : Members Json} {parts : Parts}
    (h : partsOfMembers ((key, value) :: members) = .ok parts) :
    ∃ add rest, Adds key value add ∧ partsOfMembers members = .ok rest ∧ parts = add rest := by
  rw [partsOfMembers] at h
  obtain ⟨add, hadd, h⟩ := bind_eq_ok.1 h
  obtain ⟨rest, hrest, h⟩ := bind_eq_ok.1 h
  cases h
  exact ⟨add, rest, adds_of_part hadd, hrest, rfl⟩

/-- A name of a test, or one that is unknown, is none of the others. -/
theorem ne_of_test_or_unknown {key : String} (h : key ∈ comparisons ∨ key ∉ fields) :
    key ≠ "And" ∧ key ≠ "Or" ∧ key ≠ "Not" ∧ key ≠ "Variable" := by
  refine ⟨?_, ?_, ?_, ?_⟩ <;> rintro rfl <;> exact absurd h (by decide)

@[simp] theorem orNull_null : orNull .null = .ok none := by rw [orNull]

@[simp] theorem listOrNull_null : listOrNull .null = .ok none := by rw [listOrNull]

/-- The parts but for the tests are read from the members of their names. -/
structure ReadFrom (members : Members Json) (parts : Parts) : Prop where
  all : listOrNull (members.valueOf "And") = .ok parts.all
  any : listOrNull (members.valueOf "Or") = .ok parts.any
  inner : orNull (members.valueOf "Not") = .ok parts.inner
  name : Misreading.orNull Json.string? (members.valueOf "Variable") = .ok parts.variableName

theorem readFrom {members : Members Json} {parts : Parts}
    (h : partsOfMembers members = .ok parts) : ReadFrom members parts := by
  induction members generalizing parts with
  | nil =>
    rw [partsOfMembers] at h
    cases h
    exact ⟨listOrNull_null, listOrNull_null, orNull_null, rfl⟩
  | cons e members ih =>
    obtain ⟨key, value⟩ := e
    obtain ⟨add, rest, hadd, hrest, rfl⟩ := Adds.of_cons h
    obtain ⟨hall, hany, hinner, hname⟩ := ih hrest
    have hne {other : String} (hother : key ≠ other) :
        Members.valueOf ((key, value) :: members) other = Members.valueOf members other :=
      Members.valueOf_cons_of_ne hother value members
    have hkeep (hkey : key ∈ comparisons ∨ key ∉ fields) :
        ReadFrom ((key, value) :: members) rest := by
      obtain ⟨hand, hor, hnot, hvariable⟩ := ne_of_test_or_unknown hkey
      rw [← hne hand] at hall
      rw [← hne hor] at hany
      rw [← hne hnot] at hinner
      rw [← hne hvariable] at hname
      exact ⟨hall, hany, hinner, hname⟩
    clear h
    cases hadd with
    | all h | any h | inner h | name h =>
      constructor <;> simp_all [Members.valueOf, Members.get?_cons]
    | test hkey h =>
      obtain ⟨hall, hany, hinner, hname⟩ := hkeep (.inl (isSome_reader?_iff.1 (by rw [hkey]; rfl)))
      exact ⟨hall, hany, hinner, hname⟩
    | unknown h => exact hkeep (.inr h)

/-- The number of combinators and tests among the parts. -/
def Parts.count (p : Parts) : Nat :=
  p.all.isSome.toNat + p.any.isSome.toNat + p.inner.isSome.toNat + p.tests.length

namespace Parts

theorem count_all {p : Parts} (h : p.all = none) (ps : Option (List Predicate)) :
    count { p with all := ps } = ps.isSome.toNat + p.count := by
  simp [count, h]
  omega

theorem count_any {p : Parts} (h : p.any = none) (ps : Option (List Predicate)) :
    count { p with any := ps } = ps.isSome.toNat + p.count := by
  simp [count, h]
  omega

theorem count_inner {p : Parts} (h : p.inner = none) (q : Option Predicate) :
    count { p with inner := q } = q.isSome.toNat + p.count := by
  simp [count, h]
  omega

theorem count_tests (p : Parts) (t : Option Test) :
    count { p with tests := t.toList ++ p.tests } = t.isSome.toNat + p.count := by
  cases t <;> simp [count]
  omega

theorem length_combined (p : Parts) :
    ((p.all.map and).toList ++ (p.any.map or).toList ++ (p.inner.map not).toList ++
      p.tests.map (test (p.variableName.getD ""))).length = p.count := by
  obtain ⟨name, all, any, inner, tests⟩ := p
  cases all <;> cases any <;> cases inner <;> simp [count] <;> omega

end Parts

theorem length_cons_if {α : Type} (b : Bool) (a : α) (as : List α) :
    (if b = true then a :: as else as).length = b.toNat + as.length := by
  cases b <;> simp [Nat.add_comm]

theorem isSome_of_listOrNull {value : Json} {ps : Option (List Predicate)}
    (h : listOrNull value = .ok ps) : ps.isSome = !value.isNull := by
  cases value with
  | null =>
    rw [listOrNull_null] at h
    cases h
    rfl
  | arr items =>
    rw [listOrNull] at h
    obtain ⟨ps', -, h⟩ := bind_eq_ok.1 h
    cases h
    rfl
  | _ =>
    rw [listOrNull] at h
    cases h
    all_goals simp

theorem isSome_of_orNull {value : Json} {p : Option Predicate} (h : orNull value = .ok p) :
    p.isSome = !value.isNull := by
  cases value with
  | null =>
    rw [orNull_null] at h
    cases h
    rfl
  | _ =>
    rw [orNull] at h
    · obtain ⟨p', -, h⟩ := bind_eq_ok.1 h
      cases h
      rfl
    · simp

theorem isSome_of_misreading_orNull {α : Type} {read : Json → Option α} {value : Json}
    {o : Option α} (h : Misreading.orNull read value = .ok o) : o.isSome = !value.isNull := by
  rcases Misreading.orNull_eq_ok_iff.1 h with ⟨hnull, rfl⟩ | ⟨hnull, a, -, rfl⟩
  · rw [hnull]
    rfl
  · rw [hnull]
    rfl

/-- No combinator or test is lost: there are as many as the members give, if no key is repeated. -/
theorem count_eq {members : Members Json} (distinct : members.keys.Nodup) {parts : Parts}
    (h : partsOfMembers members = .ok parts) :
    parts.count = (members.filter fun e =>
      decide (e.1 ∈ combinators ++ comparisons) && !e.2.isNull).length := by
  induction members generalizing parts with
  | nil =>
    rw [partsOfMembers] at h
    cases h
    rfl
  | cons e members ih =>
    obtain ⟨hkey, hmembers⟩ := List.nodup_cons.1 distinct
    obtain ⟨key, value⟩ := e
    obtain ⟨add, rest, hadd, hrest, rfl⟩ := Adds.of_cons h
    have hcount := ih hmembers hrest
    have hread := readFrom hrest
    rw [List.filter_cons, length_cons_if, ← hcount]
    dsimp only
    have htests {key : String} (h : key ∈ combinators ++ comparisons) :
        (decide (key ∈ combinators ++ comparisons) && !value.isNull) = !value.isNull := by
      rw [decide_eq_true h, Bool.true_and]
    clear h
    cases hadd with
    | all h =>
      have hfresh := hread.all
      rw [Members.valueOf_of_not_mem hkey, listOrNull_null] at hfresh
      rw [Parts.count_all (Except.ok.inj hfresh).symm, htests (by decide), isSome_of_listOrNull h]
    | any h =>
      have hfresh := hread.any
      rw [Members.valueOf_of_not_mem hkey, listOrNull_null] at hfresh
      rw [Parts.count_any (Except.ok.inj hfresh).symm, htests (by decide), isSome_of_listOrNull h]
    | inner h =>
      have hfresh := hread.inner
      rw [Members.valueOf_of_not_mem hkey, orNull_null] at hfresh
      rw [Parts.count_inner (Except.ok.inj hfresh).symm, htests (by decide), isSome_of_orNull h]
    | name h =>
      have hname : decide ("Variable" ∈ combinators ++ comparisons) = false := by decide
      rw [hname, Bool.false_and, Bool.toNat_false, Nat.zero_add]
      rfl
    | test hkey h =>
      have hcomparison := isSome_reader?_iff.1 (by rw [hkey]; rfl)
      rw [Parts.count_tests, htests (List.mem_append_right _ hcomparison),
        isSome_of_misreading_orNull h]
    | unknown h =>
      have hfields : ∀ key ∈ combinators ++ comparisons, key ∈ fields := by decide
      rw [decide_eq_false fun hmem => h (hfields key hmem), Bool.false_and, Bool.toNat_false,
        Nat.zero_add]
      rfl

/-- Tests are read from the comparisons that the members give. -/
theorem tests_ne_nil_iff {members : Members Json} {parts : Parts}
    (h : partsOfMembers members = .ok parts) :
    parts.tests ≠ [] ↔ ∃ e ∈ members, e.1 ∈ comparisons ∧ e.2.isNull = false := by
  induction members generalizing parts with
  | nil =>
    rw [partsOfMembers] at h
    cases h
    simp
  | cons e members ih =>
    obtain ⟨key, value⟩ := e
    obtain ⟨add, rest, hadd, hrest, rfl⟩ := Adds.of_cons h
    have htests := ih hrest
    rw [List.exists_mem_cons_iff, ← htests]
    clear h
    have hother (hkey : key ∉ comparisons) :
        rest.tests ≠ [] ↔ (key ∈ comparisons ∧ value.isNull = false) ∨ rest.tests ≠ [] :=
      ⟨.inr, fun h => h.resolve_left fun h => hkey h.1⟩
    cases hadd with
    | all | any | inner | name => exact hother (by decide)
    | test hkey h =>
      have hcomparison := isSome_reader?_iff.1 (by rw [hkey]; rfl)
      have hsome := isSome_of_misreading_orNull h
      cases hnull : value.isNull <;> rw [hnull] at hsome
      · obtain ⟨t, rfl⟩ := Option.isSome_iff_exists.1 hsome
        simp [hcomparison]
      · obtain rfl := Option.not_isSome_iff_eq_none.1 (by rw [hsome]; decide)
        simp
    | unknown h =>
      have hfields : ∀ key ∈ comparisons, key ∈ fields := by decide
      exact hother fun hmem => h (hfields key hmem)

theorem any_isEmpty_iff {α : Type} {o : Option (List α)} :
    o.any List.isEmpty = true ↔ o = some [] := by
  cases o <;> simp [List.isEmpty_iff]

/-- Parts amount to a predicate if there is one of them, no empty list and no test without a
variable. -/
theorem ofParts_ok_iff {parts : Parts} :
    (∃ p, ofParts parts = .ok p) ↔ parts.all ≠ some [] ∧ parts.any ≠ some [] ∧
      (parts.tests ≠ [] → parts.variableName.isSome = true) ∧ parts.count = 1 := by
  rw [ofParts]
  by_cases hall : parts.all = some []
  · simp [hall]
  rw [if_neg (mt any_isEmpty_iff.1 hall)]
  by_cases hany : parts.any = some []
  · simp [hany]
  rw [if_neg (mt any_isEmpty_iff.1 hany)]
  have hnamed : (parts.variableName.isNone && !parts.tests.isEmpty) = true ↔
      ¬(parts.tests ≠ [] → parts.variableName.isSome = true) := by
    cases parts.variableName <;> simp
  by_cases hname : parts.tests ≠ [] → parts.variableName.isSome = true
  · rw [if_neg fun h => hnamed.1 h hname, ← parts.length_combined]
    dsimp only
    generalize (parts.all.map and).toList ++ (parts.any.map or).toList ++
      (parts.inner.map not).toList ++ parts.tests.map (test (parts.variableName.getD "")) = several
    match several with
    | [] => simp
    | [one] => simpa [hall, hany] using hname
    | _ :: _ :: _ => simp
  · rw [if_pos (hnamed.2 hname)]
    simp [hname]

end Predicate
end ModelActions
