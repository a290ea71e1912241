import ModelActions.Proofs.PredicateParts

/-!
# What is read as a predicate

The rule by which JSON objects are predicates, said without reading them: every known field that is
given has its type, one combinator or comparison is given, lists are not empty, and a comparison
comes with a variable. An object is read as a predicate if and only if it follows the rule.
-/
namespace ModelActions
namespace Predicate

/-- The types of the fields that are known. -/
inductive FieldType where
  | list
  | inner
  | text
  | truth
  | number
  deriving DecidableEq, Repr

def fieldType? : String → Option FieldType
  | "And" | "Or" => some .list
  | "Not" => some .inner
  | "StringEquals" | "Variable" => some .text
  | "BooleanEquals" | "IsBoolean" | "IsNull" | "IsPresent" | "IsNumeric" | "IsString" => some .truth
  | "NumericEquals" | "NumericGreaterThan" | "NumericGreaterThanEquals" | "NumericLessThan"
  | "NumericLessThanEquals" => some .number
  | _ => none

mutual
/-- A predicate that is written as an object by the rule. -/
inductive WellWritten : Json → Prop
  | obj {members : Members Json}
    (typed : ∀ e ∈ members, e.2.isNull = false → ∀ type ∈ fieldType? e.1, HasType e.2 type)
    (one : ∃! key, key ∈ combinators ++ comparisons ∧ members.Gives key)
    (all : members.get? "And" ≠ some (.arr []))
    (any : members.get? "Or" ≠ some (.arr []))
    (named : ∀ key ∈ comparisons, members.Gives key → members.Gives "Variable") :
    WellWritten (.obj members)

inductive HasType : Json → FieldType → Prop
  | list {items : List Json} (written : ∀ item ∈ items, WellWritten item) :
    HasType (.arr items) .list
  | inner {value : Json} (written : WellWritten value) : HasType value .inner
  | text (s : String) : HasType (.str s) .text
  | truth (b : Bool) : HasType (.bool b) .truth
  | number {value : Json} (isNumber : value.isNumber = true) : HasType value .number
end

mutual
/-- Predicates are written as objects at every depth, whose keys are not repeated. -/
def ByName : Json → Prop
  | .obj members => (Members.keys members).Nodup ∧ ByNameIn members
  | .arr _ => False
  | _ => True

def ByNameIn : List (String × Json) → Prop
  | [] => True
  | (key, value) :: members =>
    ((key = "Not" → ByName value) ∧ (key = "And" ∨ key = "Or" → ByNameList value)) ∧
      ByNameIn members

def ByNameList : Json → Prop
  | .arr items => ByNameAll items
  | _ => True

def ByNameAll : List Json → Prop
  | [] => True
  | j :: js => ByName j ∧ ByNameAll js
end

/-- The fields that are known have a type. -/
theorem isSome_fieldType?_iff {key : String} : (fieldType? key).isSome = true ↔ key ∈ fields := by
  constructor
  · intro h
    by_contra hkey
    unfold fieldType? at h
    split at h <;> first | exact hkey (by decide) | cases h
  · have hall : ∀ key ∈ fields, (fieldType? key).isSome = true := by decide
    exact hall key

theorem eq_arr_nil_of_listOrNull {value : Json} (h : listOrNull value = .ok (some [])) :
    value = .arr [] := by
  cases value with
  | arr items =>
    cases items with
    | nil => rfl
    | cons j js =>
      rw [listOrNull, ofJsonAll] at h
      obtain ⟨ps, hps, h⟩ := bind_eq_ok.1 h
      obtain ⟨p, -, hps⟩ := bind_eq_ok.1 hps
      obtain ⟨ps', -, hps⟩ := bind_eq_ok.1 hps
      cases hps
      cases h
  | null =>
    rw [listOrNull_null] at h
    cases h
  | _ =>
    rw [listOrNull] at h
    cases h
    all_goals simp

/-- A list is read as the empty one if and only if it is written so. -/
theorem read_nil_iff {members : Members Json} {key : String} {ps : Option (List Predicate)}
    (h : listOrNull (members.valueOf key) = .ok ps) :
    ps = some [] ↔ members.get? key = some (.arr []) := by
  constructor
  · rintro rfl
    have hvalue := eq_arr_nil_of_listOrNull h
    unfold Members.valueOf at hvalue
    cases hget : members.get? key with
    | none =>
      rw [hget] at hvalue
      cases hvalue
    | some value =>
      rw [hget] at hvalue
      exact congrArg some hvalue
  · intro hget
    rw [Members.valueOf, hget, Option.getD_some, listOrNull, ofJsonAll] at h
    cases h
    rfl

/-- Whether parts amount to a predicate, said of the members that they were read from. -/
theorem amounts_iff {members : Members Json} (distinct : members.keys.Nodup) {parts : Parts}
    (h : partsOfMembers members = .ok parts) :
    (∃ p, ofParts parts = .ok p) ↔
      (∃! key, key ∈ combinators ++ comparisons ∧ members.Gives key) ∧
        members.get? "And" ≠ some (.arr []) ∧ members.get? "Or" ≠ some (.arr []) ∧
          ∀ key ∈ comparisons, members.Gives key → members.Gives "Variable" := by
  have hread := readFrom h
  have hone : parts.count = 1 ↔ ∃! key, key ∈ combinators ++ comparisons ∧ members.Gives key := by
    rw [count_eq distinct h, Members.length_filter_eq_one distinct]
  have hname : parts.variableName.isSome = true ↔ members.Gives "Variable" := by
    rw [isSome_of_misreading_orNull hread.name, Bool.not_eq_true', Members.Gives]
  have htests : parts.tests ≠ [] ↔ ∃ key ∈ comparisons, members.Gives key := by
    rw [tests_ne_nil_iff h]
    constructor
    · rintro ⟨e, he, hkey, hnull⟩
      exact ⟨e.1, hkey, by rwa [Members.Gives, Members.valueOf_of_mem distinct he]⟩
    · rintro ⟨key, hkey, hgives⟩
      exact ⟨_, Members.mem_of_gives hgives, hkey, hgives⟩
  rw [ofParts_ok_iff, hone, htests, hname, Ne, read_nil_iff hread.all, Ne, read_nil_iff hread.any]
  constructor
  · rintro ⟨hand, hor, hnamed, hone⟩
    exact ⟨hone, hand, hor, fun key hkey hgives => hnamed ⟨key, hkey, hgives⟩⟩
  · rintro ⟨hone, hand, hor, hnamed⟩
    refine ⟨hand, hor, ?_, hone⟩
    rintro ⟨key, hkey, hgives⟩
    exact hnamed key hkey hgives

theorem isOk_bind_iff {ε α β : Type} {x : Except ε α} {f : α → Except ε β} :
    (∃ b, x >>= f = .ok b) ↔ ∃ a, x = .ok a ∧ ∃ b, f a = .ok b := by
  constructor
  · rintro ⟨b, h⟩
    obtain ⟨a, ha, hb⟩ := bind_eq_ok.1 h
    exact ⟨a, ha, b, hb⟩
  · rintro ⟨a, ha, b, hb⟩
    exact ⟨b, bind_eq_ok.2 ⟨a, ha, hb⟩⟩

theorem hasType_list_iff {value : Json} :
    HasType value .list ↔ ∃ items, value = .arr items ∧ ∀ item ∈ items, WellWritten item :=
  ⟨fun | .list written => ⟨_, rfl, written⟩, fun ⟨_, hvalue, written⟩ => hvalue ▸ .list written⟩

theorem hasType_inner_iff {value : Json} : HasType value .inner ↔ WellWritten value :=
  ⟨fun | .inner written => written, .inner⟩

theorem hasType_text_iff {value : Json} : HasType value .text ↔ value.string?.isSome = true := by
  constructor
  · rintro ⟨s⟩
    rfl
  · cases value with
    | str s => exact fun _ => .text s
    | _ => nofun

theorem hasType_truth_iff {value : Json} : HasType value .truth ↔ value.bool?.isSome = true := by
  constructor
  · rintro ⟨b⟩
    rfl
  · cases value with
    | bool b => exact fun _ => .truth b
    | _ => nofun

theorem hasType_number_iff {value : Json} : HasType value .number ↔ value.float?.isSome = true := by
  have hnumber : value.isNumber = value.float?.isSome := by cases value <;> rfl
  rw [← hnumber]
  exact ⟨fun | .number isNumber => isNumber, .number⟩

/-- A test is read from a value of the type of its field. -/
theorem isSome_read_iff {key : String} {read : Json → Option Test}
    (h : Test.reader? key = some read) (value : Json) :
    (read value).isSome = true ↔ ∀ type ∈ fieldType? key, HasType value type := by
  unfold Test.reader? at h
  split at h <;> cases h
  all_goals simp [fieldType?, hasType_text_iff, hasType_truth_iff, hasType_number_iff]

theorem misreading_orNull_ok_iff {α : Type} {read : Json → Option α} {value : Json} :
    (∃ o, Misreading.orNull read value = .ok o) ↔
      (value.isNull = false → (read value).isSome = true) := by
  cases hnull : value.isNull <;>
    simp [Misreading.orNull_eq_ok_iff, hnull, Option.isSome_iff_exists]

mutual
theorem ofJson_ok_iff {j : Json} (byName : ByName j) : (∃ p, ofJson j = .ok p) ↔ WellWritten j := by
  match j with
  | .obj members =>
    have htyped := partsOfMembers_ok_iff byName.2
    rw [ofJson, isOk_bind_iff]
    constructor
    · rintro ⟨parts, hparts, hp⟩
      obtain ⟨one, all, any, named⟩ := (amounts_iff byName.1 hparts).1 hp
      exact .obj (htyped.1 ⟨parts, hparts⟩) one all any named
    · rintro ⟨typed, one, all, any, named⟩
      obtain ⟨parts, hparts⟩ := htyped.2 typed
      exact ⟨parts, hparts, (amounts_iff byName.1 hparts).2 ⟨one, all, any, named⟩⟩
  | .arr _ => exact False.elim byName
  | .null | .bool _ | .int _ | .float _ _ | .str _ =>
    rw [ofJson]
    · exact ⟨fun ⟨_, h⟩ => (nomatch h), fun h => (nomatch h)⟩
    all_goals simp

theorem partsOfMembers_ok_iff {members : List (String × Json)} (byName : ByNameIn members) :
    (∃ parts, partsOfMembers members = .ok parts) ↔
      ∀ e ∈ members, e.2.isNull = false → ∀ type ∈ fieldType? e.1, HasType e.2 type := by
  match members with
  | [] =>
    rw [partsOfMembers]
    simp
  | (key, value) :: members =>
    have hpart := part_ok_iff byName.1.1 byName.1.2
    have hmembers := partsOfMembers_ok_iff byName.2
    rw [partsOfMembers, isOk_bind_iff, List.forall_mem_cons, ← hpart, ← hmembers]
    constructor
    · rintro ⟨add, hadd, hparts⟩
      obtain ⟨rest, hrest, -⟩ := isOk_bind_iff.1 hparts
      exact ⟨⟨add, hadd⟩, ⟨rest, hrest⟩⟩
    · rintro ⟨⟨add, hadd⟩, ⟨rest, hrest⟩⟩
      exact ⟨add, hadd, isOk_bind_iff.2 ⟨rest, hrest, _, rfl⟩⟩

theorem part_ok_iff {key : String} {value : Json} (inner : key = "Not" → ByName value)
    (list : key = "And" ∨ key = "Or" → ByNameList value) :
    (∃ add, part key value = .ok add) ↔
      (value.isNull = false → ∀ type ∈ fieldType? key, HasType value type) := by
  have hread {α : Type} {x : Except Misreading α} {f : α → Parts → Parts} :
      (∃ add, (do return f (← x)) = .ok add) ↔ ∃ a, x = .ok a := by
    rw [isOk_bind_iff]
    exact ⟨fun ⟨a, ha, _⟩ => ⟨a, ha⟩, fun ⟨a, ha⟩ => ⟨a, ha, _, rfl⟩⟩
  have htype (type : FieldType) (hkey : fieldType? key = some type) :
      (∀ type ∈ fieldType? key, HasType value type) ↔ HasType value type := by
    simp [hkey]
  rw [part]
  split
  · next hkey => rw [hread, listOrNull_ok_iff (list (.inl hkey)), htype .list (by rw [hkey]; rfl)]
  split
  · next hkey => rw [hread, listOrNull_ok_iff (list (.inr hkey)), htype .list (by rw [hkey]; rfl)]
  split
  · next hkey => rw [hread, orNull_ok_iff (inner hkey), htype .inner (by rw [hkey]; rfl),
      hasType_inner_iff]
  split
  · next hkey => rw [hread, misreading_orNull_ok_iff, htype .text (by rw [hkey]; rfl),
      hasType_text_iff]
  split
  · next hkey => rw [hread, misreading_orNull_ok_iff, isSome_read_iff hkey]
  · next hand hor hnot hname _ hkey =>
    have hcomparison : key ∉ comparisons := reader?_eq_none_iff.1 hkey
    have hunknown : fieldType? key = none := by
      rw [← Option.not_isSome_iff_eq_none, isSome_fieldType?_iff]
      exact not_mem_fields hand hor hnot hname hcomparison
    refine ⟨fun _ _ type htype => ?_, fun _ => ⟨id, rfl⟩⟩
    rw [hunknown] at htype
    cases htype

theorem orNull_ok_iff {value : Json} (byName : ByName value) :
    (∃ p, orNull value = .ok p) ↔ (value.isNull = false → WellWritten value) := by
  match value with
  | .null => simp [Json.isNull]
  | .bool _ | .int _ | .float _ _ | .str _ | .obj _ | .arr _ =>
    have hj := ofJson_ok_iff byName
    rw [orNull, isOk_bind_iff]
    · simp [Json.isNull, ← hj, pure, Except.pure]
    · simp

theorem listOrNull_ok_iff {value : Json} (byName : ByNameList value) :
    (∃ ps, listOrNull value = .ok ps) ↔ (value.isNull = false → HasType value .list) := by
  rw [hasType_list_iff]
  match value with
  | .arr items =>
    rw [listOrNull, isOk_bind_iff]
    have byItems : ByNameAll items := byName
    have hitems := ofJsonAll_ok_iff byItems
    simp [Json.isNull, ← hitems, pure, Except.pure]
  | .null => simp [Json.isNull]
  | .bool _ | .int _ | .float _ _ | .str _ | .obj _ => simp [listOrNull, Json.isNull]

theorem ofJsonAll_ok_iff {items : List Json} (byName : ByNameAll items) :
    (∃ ps, ofJsonAll items = .ok ps) ↔ ∀ item ∈ items, WellWritten item := by
  match items with
  | [] =>
    rw [ofJsonAll]
    simp
  | j :: js =>
    have hj := ofJson_ok_iff byName.1
    have hjs := ofJsonAll_ok_iff byName.2
    rw [ofJsonAll, isOk_bind_iff, List.forall_mem_cons, ← hj, ← hjs]
    constructor
    · rintro ⟨p, hp, hps⟩
      obtain ⟨ps, hps, -⟩ := isOk_bind_iff.1 hps
      exact ⟨⟨p, hp⟩, ⟨ps, hps⟩⟩
    · rintro ⟨⟨p, hp⟩, ⟨ps, hps⟩⟩
      exact ⟨p, hp, isOk_bind_iff.2 ⟨ps, hps, _, rfl⟩⟩
end

end Predicate
end ModelActions
