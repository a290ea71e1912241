import ModelActions.Proofs.Spacing

/-!
# Loose equality and distinct values

Loose equality is reflexive and symmetric, and null is loosely equal to null only. It is transitive
on values that are not proper fractions. The distinct values of a list are some of its members, and
every other member that is not null is loosely equal to one of them.
-/
namespace ModelActions.Json

mutual
theorem beq_comm (a b : Json) : Json.beq a b = Json.beq b a := by
  cases a <;> cases b <;> simp only [Json.beq]
  case bool.bool a b => exact BEq.comm
  case int.int a b => exact BEq.comm
  case float.float a _ b _ => exact Distance.beq_comm a b
  case str.str a b => exact BEq.comm
  case arr.arr as bs => exact beqItems_comm as bs
  case obj.obj as bs => exact beqMembers_comm as bs
termination_by structural a

theorem beqItems_comm (as bs : List Json) : Json.beqItems as bs = Json.beqItems bs as := by
  cases as <;> cases bs <;> simp only [Json.beqItems]
  case cons.cons a as b bs => rw [beq_comm a b, beqItems_comm as bs]
termination_by structural as

theorem beqMembers_comm (as bs : List (String × Json)) :
    Json.beqMembers as bs = Json.beqMembers bs as := by
  rcases as with _ | ⟨⟨k, a⟩, as⟩ <;> rcases bs with _ | ⟨⟨l, b⟩, bs⟩ <;>
    simp only [Json.beqMembers]
  rw [beq_comm a b, beqMembers_comm as bs, BEq.comm (a := k) (b := l)]
termination_by structural as
end

mutual
theorem beq_refl (a : Json) : Json.beq a a = true := by
  cases a <;> simp only [Json.beq, beq_self_eq_true]
  case float x h => exact Distance.beq_self h
  case arr as => exact beqItems_refl as
  case obj as => exact beqMembers_refl as
termination_by structural a

theorem beqItems_refl (as : List Json) : Json.beqItems as as = true := by
  cases as with
  | nil => rfl
  | cons a as => simp only [Json.beqItems, beq_refl a, beqItems_refl as, Bool.and_self]
termination_by structural as

theorem beqMembers_refl (as : List (String × Json)) : Json.beqMembers as as = true := by
  rcases as with _ | ⟨⟨k, a⟩, as⟩
  · rfl
  · simp only [Json.beqMembers, beq_self_eq_true, beq_refl a, beqMembers_refl as, Bool.and_self]
termination_by structural as
end

mutual
theorem beq_trans {a b c : Json} (hab : Json.beq a b = true) (hbc : Json.beq b c = true) :
    Json.beq a c = true := by
  cases a <;> cases b <;> simp only [Json.beq, Bool.false_eq_true] at hab <;> cases c <;>
    simp only [Json.beq, Bool.false_eq_true] at hbc ⊢
  case bool.bool.bool a b c => grind
  case int.int.int a b c => grind
  case float.float.float a _ b _ c _ => exact Distance.beq_trans hab hbc
  case str.str.str a b c => grind
  case arr.arr.arr as bs cs => exact beqItems_trans hab hbc
  case obj.obj.obj as bs cs => exact beqMembers_trans hab hbc
termination_by structural a

theorem beqItems_trans {as bs cs : List Json} (hab : Json.beqItems as bs = true)
    (hbc : Json.beqItems bs cs = true) : Json.beqItems as cs = true := by
  cases as <;> cases bs <;> simp only [Json.beqItems, Bool.false_eq_true] at hab <;> cases cs <;>
    simp only [Json.beqItems, Bool.false_eq_true] at hbc ⊢
  case cons.cons.cons a as b bs c cs =>
    rw [Bool.and_eq_true] at hab hbc ⊢
    exact ⟨beq_trans hab.1 hbc.1, beqItems_trans hab.2 hbc.2⟩
termination_by structural as

theorem beqMembers_trans {as bs cs : List (String × Json)} (hab : Json.beqMembers as bs = true)
    (hbc : Json.beqMembers bs cs = true) : Json.beqMembers as cs = true := by
  rcases as with _ | ⟨⟨k, a⟩, as⟩ <;> rcases bs with _ | ⟨⟨l, b⟩, bs⟩ <;>
    simp only [Json.beqMembers, Bool.false_eq_true] at hab <;> rcases cs with _ | ⟨⟨j, c⟩, cs⟩ <;>
    simp only [Json.beqMembers, Bool.false_eq_true] at hbc ⊢
  rw [Bool.and_eq_true, Bool.and_eq_true, beq_iff_eq] at hab hbc ⊢
  obtain ⟨⟨rfl, hab⟩, habs⟩ := hab
  obtain ⟨⟨rfl, hbc⟩, hbcs⟩ := hbc
  exact ⟨⟨rfl, beq_trans hab hbc⟩, beqMembers_trans habs hbcs⟩
termination_by structural as
end

theorem looseEq_refl (a : Json) : a.looseEq a = true := by
  unfold looseEq
  cases ha : a.float? with
  | none => exact beq_refl a
  | some x => exact decide_eq_true (Distance.abs_sub_self (isFinite_of_float? ha))

/-- A float strictly between 0 and 1 or between -1 and 0. -/
def isFraction : Json → Bool
  | .float x _ => !(x ≤ -1 || x == 0 || 1 ≤ x)
  | _ => false

theorem coarse_of_float? {a : Json} {x : Float} (ha : a.isFraction = false)
    (hx : a.float? = some x) : Distance.Coarse x.toModel.unpack := by
  cases a with
  | int n =>
    obtain rfl := Option.some.inj hx
    exact Distance.coarse_nearestFloat n
  | float y hy =>
    obtain rfl := Option.some.inj hx
    simp only [isFraction, Bool.not_eq_false', Bool.or_eq_true, decide_eq_true_eq] at ha
    rcases ha with (ha | ha) | ha
    · exact .of_large (.of_le_neg_one ha) hy
    · exact .of_beq_zero ha
    · exact .of_large (.of_one_le ha) hy
  | _ => cases hx

/-- Loose equality of values other than proper fractions is equality, of the floats of numbers. -/
theorem looseEq_eq {a b : Json} (ha : a.isFraction = false) (hb : b.isFraction = false) :
    a.looseEq b = match a.float?, b.float? with
      | some x, some y => x == y
      | _, _ => Json.beq a b := by
  unfold looseEq
  cases hx : a.float? <;> cases hy : b.float? <;> simp only
  case some.some x y =>
    rw [Bool.eq_iff_iff, decide_eq_true_iff]
    exact Distance.close_iff_beq (coarse_of_float? ha hx) (coarse_of_float? hb hy)
  all_goals rfl

/-- What is loosely equal to a number is a number. -/
theorem isSome_float?_of_looseEq {a b : Json} (h : a.looseEq b = true) :
    a.float?.isSome = b.float?.isSome := by
  unfold looseEq at h
  split at h
  · next hx hy => rw [hx, hy]; rfl
  · replace h : Json.beq a b = true := h
    cases a <;> cases b <;> first | rfl | cases h

theorem looseEq_trans {a b c : Json} (ha : a.isFraction = false) (hb : b.isFraction = false)
    (hc : c.isFraction = false) (hab : a.looseEq b = true) (hbc : b.looseEq c = true) :
    a.looseEq c = true := by
  have hkind := isSome_float?_of_looseEq hab
  have hkind' := isSome_float?_of_looseEq hbc
  rw [looseEq_eq ha hb] at hab
  rw [looseEq_eq hb hc] at hbc
  rw [looseEq_eq ha hc]
  cases hx : a.float? <;> cases hy : b.float? <;> cases hz : c.float? <;>
    simp only [hx, hy, hz, Option.isSome_some, Option.isSome_none, reduceCtorEq] at *
  case some.some.some => exact Distance.beq_trans hab hbc
  case none.none.none => exact beq_trans hab hbc

theorem looseEq_comm (a b : Json) : a.looseEq b = b.looseEq a := by
  unfold looseEq
  cases ha : a.float? <;> cases hb : b.float? <;> simp only
  case some.some x y => rw [Distance.abs_sub_comm]
  all_goals exact beq_comm a b

theorem looseEq_null (a : Json) : a.looseEq .null = a.isNull := by
  cases a <;> rfl

/-- What is loosely equal to a value other than null is not null either. -/
theorem isNull_eq_false_of_looseEq {a b : Json} (h : a.looseEq b = true)
    (ha : a.isNull = false) : b.isNull = false := by
  cases b
  case null => rw [looseEq_null, ha] at h; contradiction
  all_goals rfl

theorem mem_addDistinct {seen : List Json} {value o : Json} (h : o ∈ addDistinct seen value) :
    o ∈ seen ∨ (o = value ∧ o.isNull = false) := by
  unfold addDistinct at h
  split at h
  · exact .inl h
  · next hv =>
    simp only [Bool.or_eq_true, not_or, Bool.not_eq_true] at hv
    rcases List.mem_append.1 h with h | h
    · exact .inl h
    · obtain rfl := List.mem_singleton.1 h
      exact .inr ⟨rfl, hv.1⟩

theorem mem_addDistinct_of_mem {seen : List Json} {o : Json} (value : Json) (h : o ∈ seen) :
    o ∈ addDistinct seen value := by
  unfold addDistinct
  split
  · exact h
  · exact List.mem_append_left _ h

/-- A value other than null is kept, or was seen before in another form. -/
theorem exists_mem_addDistinct (seen : List Json) {value : Json} (h : value.isNull = false) :
    ∃ o ∈ addDistinct seen value, o = value ∨ o.looseEq value = true := by
  unfold addDistinct
  split
  · next hv =>
    rw [h, Bool.false_or, List.any_eq_true] at hv
    obtain ⟨o, ho, he⟩ := hv
    exact ⟨o, ho, .inr he⟩
  · exact ⟨value, by simp, .inl rfl⟩

theorem mem_of_mem_foldl_addDistinct {values seen : List Json} {o : Json}
    (h : o ∈ values.foldl addDistinct seen) : o ∈ seen ∨ (o ∈ values ∧ o.isNull = false) := by
  induction values generalizing seen with
  | nil => exact .inl h
  | cons v vs ih =>
    rcases ih h with h | ⟨h, hn⟩
    · rcases mem_addDistinct h with h | ⟨rfl, hn⟩
      · exact .inl h
      · exact .inr ⟨by simp, hn⟩
    · exact .inr ⟨by simp [h], hn⟩

theorem mem_foldl_addDistinct_of_mem {seen : List Json} {o : Json} (values : List Json)
    (h : o ∈ seen) : o ∈ values.foldl addDistinct seen := by
  induction values generalizing seen with
  | nil => exact h
  | cons v vs ih => exact ih (mem_addDistinct_of_mem v h)

theorem exists_mem_foldl_addDistinct (seen : List Json) {values : List Json} {v : Json}
    (hv : v ∈ values) (hn : v.isNull = false) :
    ∃ o ∈ values.foldl addDistinct seen, o = v ∨ o.looseEq v = true := by
  induction values generalizing seen with
  | nil => simp at hv
  | cons w vs ih =>
    rcases List.mem_cons.1 hv with rfl | hv
    · obtain ⟨o, ho, he⟩ := exists_mem_addDistinct seen hn
      exact ⟨o, mem_foldl_addDistinct_of_mem vs ho, he⟩
    · exact ih (addDistinct seen w) hv

theorem mem_of_mem_distinct {values : List Json} {o : Json} (h : o ∈ distinct values) :
    o ∈ values ∧ o.isNull = false := by
  simpa using mem_of_mem_foldl_addDistinct h

/-- No value is lost: each is there, or one that is loosely equal to it. -/
theorem exists_mem_distinct {values : List Json} {v : Json} (hv : v ∈ values)
    (hn : v.isNull = false) : ∃ o ∈ distinct values, o = v ∨ o.looseEq v = true :=
  exists_mem_foldl_addDistinct [] hv hn

/-- None of the values is null and no two of them are loosely equal. -/
structure Unrepeated (values : List Json) : Prop where
  nonnull : ∀ v ∈ values, v.isNull = false
  apart : values.Pairwise fun v w => v.looseEq w = false

theorem Unrepeated.addDistinct {seen : List Json} (h : Unrepeated seen) (value : Json) :
    Unrepeated (addDistinct seen value) := by
  unfold Json.addDistinct
  split
  · exact h
  · next hv =>
    simp only [Bool.or_eq_true, not_or, Bool.not_eq_true, List.any_eq_false] at hv
    constructor
    · intro v hmem
      rcases List.mem_append.1 hmem with hseen | hlast
      · exact h.nonnull v hseen
      · rw [List.mem_singleton.1 hlast]
        exact hv.1
    · refine List.pairwise_append.2 ⟨h.apart, List.pairwise_singleton _ _, fun v hseen w hlast => ?_⟩
      rw [List.mem_singleton.1 hlast]
      exact hv.2 v hseen

theorem unrepeated_distinct (values : List Json) : Unrepeated (distinct values) := by
  suffices h : ∀ seen, Unrepeated seen → Unrepeated (values.foldl Json.addDistinct seen) from
    h [] ⟨fun _ hmem => absurd hmem List.not_mem_nil, .nil⟩
  induction values with
  | nil => exact fun _ h => h
  | cons v vs ih => exact fun seen h => ih _ (h.addDistinct v)

/-- Among values on which loose equality is transitive, asking for one of the distinct values is
asking for one of all values. -/
theorem any_distinct_iff {K : Json → Prop}
    (trans : ∀ a b c, K a → K b → K c → a.looseEq b = true → b.looseEq c = true →
      a.looseEq c = true)
    {values : List Json} (hK : ∀ v ∈ values, v.isNull = false → K v) {a : Json}
    (ha : a.isNull = false → K a) :
    (distinct values).any (fun o => a.looseEq o) = true ↔
      ∃ v ∈ values, v.isNull = false ∧ v.looseEq a = true := by
  rw [List.any_eq_true]
  constructor
  · rintro ⟨o, ho, he⟩
    obtain ⟨hm, hn⟩ := mem_of_mem_distinct ho
    exact ⟨o, hm, hn, by rwa [looseEq_comm]⟩
  · rintro ⟨v, hv, hn, he⟩
    have hna := isNull_eq_false_of_looseEq he hn
    obtain ⟨o, ho, h | h⟩ := exists_mem_distinct hv hn
    · subst h
      exact ⟨o, ho, by rwa [looseEq_comm]⟩
    · obtain ⟨hom, hon⟩ := mem_of_mem_distinct ho
      have := trans o v a (hK o hom hon) (hK v hv hn) (ha hna) h he
      exact ⟨o, ho, by rwa [looseEq_comm]⟩

end ModelActions.Json
