import Mathlib
import ModelActions.Proofs.Spacing
import ModelActions.Store.Order

/-!
# Grades of rows

Sort keys compare the values in a column. Where these are all numbers, all strings or all truth
values, each row has a grade in a linear order, and the comparison of two rows is that of their
grades. The grade by several keys is the list of the grades by each of them.
-/
namespace ModelActions

/-- An ordering and two relations tell how two members of a linear order stand to each other. -/
structure Stand {T : Type} [LinearOrder T] (x y : T) (o : Ordering) (before level : Prop) :
    Prop where
  order : o = compare x y
  before : before ↔ x < y
  level : level ↔ x = y

/-! ## Floats -/

namespace Distance
open Float.Model (UnpackedFloat)

theorem compare_neg (a b : ℤ) : compare (-a) (-b) = (compare a b).swap := by
  rw [← cmp_eq_compare, ← cmp_eq_compare, cmp_swap]
  exact StrictAnti.cmp_map_eq (fun _ _ => neg_lt_neg) a b

theorem compare_cast (m n : ℕ) : compare (m : ℤ) (n : ℤ) = compare m n := by
  rw [← cmp_eq_compare, ← cmp_eq_compare]
  exact Nat.strictMono_cast.cmp_map_eq m n

theorem compare_toLex {α β : Type} [Ord α] [Ord β] (a a' : α) (b b' : β) :
    compare (toLex (a, b)) (toLex (a', b')) = (compare a a').then (compare b b') := by
  rw [Prod.Lex.compare_def]
  rfl

/-- Where a finite float stands among the others: by sign, then exponent, then significand. -/
def rank : UnpackedFloat → ℤ ×ₗ ℤ ×ₗ ℤ
  | .finite .positive m e _ => toLex (1, toLex (e, (m : ℤ)))
  | .finite .negative m e _ => toLex (-1, toLex (-e, -(m : ℤ)))
  | _ => toLex (0, toLex (0, 0))

theorem compare_eq {u v : UnpackedFloat} (hu : u.isFinite = true) (hv : v.isFinite = true) :
    u.compare v = some (compare (rank u) (rank v)) := by
  rcases u with _ | _ | _ | ⟨_ | _, m, e, hm⟩ <;> try contradiction
  all_goals rcases v with _ | _ | _ | ⟨_ | _, n, k, hn⟩ <;> try contradiction
  case finite.positive.finite.positive =>
    simp [UnpackedFloat.compare, rank, compare_toLex, compare_cast]
  case finite.negative.finite.negative =>
    simp [UnpackedFloat.compare, rank, compare_toLex, compare_cast, compare_neg,
      Ordering.swap_then]
  all_goals rfl

variable {x y : Float}

theorem lt_iff_rank (hx : x.isFinite = true) (hy : y.isFinite = true) :
    x < y ↔ rank x.toModel.unpack < rank y.toModel.unpack := by
  rw [lt_iff, UnpackedFloat.lt, compare_eq hx hy, beq_iff_eq, Option.some.injEq, compare_lt_iff_lt]

theorem beq_iff_rank (hx : x.isFinite = true) (hy : y.isFinite = true) :
    (x == y) = true ↔ rank x.toModel.unpack = rank y.toModel.unpack := by
  have hbeq : (x == y) = x.toModel.unpack.beq y.toModel.unpack := rfl
  rw [hbeq, UnpackedFloat.beq, compare_eq hx hy, beq_iff_eq, Option.some.injEq, compare_eq_iff_eq]

end Distance

namespace Stand
variable {T U : Type} [LinearOrder T] [LinearOrder U]

/-- The reverse of an order leaves the same members level. -/
theorem swap {x y : T} {o : Ordering} {before before' level : Prop} (h : Stand x y o before level)
    (hbefore : before' ↔ y < x) :
    Stand (OrderDual.toDual x) (OrderDual.toDual y) o.swap before' level where
  order := by
    rw [h.order, ← cmp_eq_compare, ← cmp_eq_compare, cmp_swap]
    exact (cmp_toDual x y).symm
  before := hbefore.trans OrderDual.toDual_lt_toDual.symm
  level := h.level

/-- The second order decides where the first leaves two members level. -/
theorem lex {x y : T} {x' y' : U} {o o' : Ordering} {before before' level level' : Prop}
    (h : Stand x y o before level) (h' : Stand x' y' o' before' level') :
    Stand (toLex (x, x')) (toLex (y, y')) (o.then o') (before ∨ level ∧ before')
      (level ∧ level') where
  order := by rw [Distance.compare_toLex, h.order, h'.order]
  before := by rw [Prod.Lex.toLex_lt_toLex, h.before, h.level, h'.before]
  level := by rw [toLex_inj, Prod.mk.injEq, h.level, h'.level]

end Stand

/-! ## Scalars -/

namespace Json

/-- One scalar is below another of its kind: numbers as 64-bit floats, strings by code point, and
`false` below `true`. -/
inductive Below : Json → Json → Prop
  | number {v w : Json} {x y : Float} (hv : v.float? = some x) (hw : w.float? = some y)
      (lt : x < y) : Below v w
  | text {s t : String} (lt : s < t) : Below (.str s) (.str t)
  | truth : Below (.bool false) (.bool true)

/-- Two scalars are equal, numbers as 64-bit floats. -/
inductive Level : Json → Json → Prop
  | number {v w : Json} {x y : Float} (hv : v.float? = some x) (hw : w.float? = some y)
      (eq : (x == y) = true) : Level v w
  | text (s : String) : Level (.str s) (.str s)
  | truth (b : Bool) : Level (.bool b) (.bool b)

/-- The kinds of scalars that are ordered. -/
inductive ScalarKind : (Json → Bool) → Prop
  | number : ScalarKind isNumber
  | text : ScalarKind isString
  | truth : ScalarKind isBool

theorem exists_float? {v : Json} (h : v.isNumber = true) : ∃ x, v.float? = some x := by
  cases v with
  | int n => exact ⟨_, rfl⟩
  | float x h => exact ⟨_, rfl⟩
  | _ => cases h

theorem exists_str {v : Json} (h : v.isString = true) : ∃ s, v = .str s := by
  cases v with
  | str s => exact ⟨s, rfl⟩
  | _ => cases h

theorem exists_bool {v : Json} (h : v.isBool = true) : ∃ b, v = .bool b := by
  cases v with
  | bool b => exact ⟨b, rfl⟩
  | _ => cases h

section
variable {v w : Json} {x y : Float} (hx : v.float? = some x) (hy : w.float? = some y)
include hx hy

theorem compare?_of_float? :
    v.compare? w = if x < y then some .lt else if x == y then some .eq else
      if y < x then some .gt else none := by
  unfold compare?
  split
  · cases hx
  · cases hx
  · rw [hx, hy]

theorem below_iff_lt : v.Below w ↔ x < y := by
  refine ⟨fun h => ?_, .number hx hy⟩
  cases h with
  | number hv hw lt =>
    cases hx.symm.trans hv
    cases hy.symm.trans hw
    exact lt
  | text | truth => cases hx

theorem level_iff_beq : v.Level w ↔ (x == y) = true := by
  refine ⟨fun h => ?_, .number hx hy⟩
  cases h with
  | number hv hw eq =>
    cases hx.symm.trans hv
    cases hy.symm.trans hw
    exact eq
  | text | truth => cases hx

theorem stand_number :
    Stand (Distance.rank x.toModel.unpack) (Distance.rank y.toModel.unpack)
      ((v.compare? w).getD .eq) (v.Below w) (v.Level w) := by
  have hfx := isFinite_of_float? hx
  have hfy := isFinite_of_float? hy
  refine ⟨?_, ?_, ?_⟩
  · rw [compare?_of_float? hx hy]
    simp only [Distance.lt_iff_rank hfx hfy, Distance.lt_iff_rank hfy hfx,
      Distance.beq_iff_rank hfx hfy]
    rcases lt_trichotomy (Distance.rank x.toModel.unpack) (Distance.rank y.toModel.unpack)
      with h | h | h
    · rw [if_pos h, compare_lt_iff_lt.2 h]
      rfl
    · rw [if_neg h.not_lt, if_pos h, compare_eq_iff_eq.2 h]
      rfl
    · rw [if_neg h.not_gt, if_neg h.ne', if_pos h, compare_gt_iff_gt.2 h]
      rfl
  · rw [below_iff_lt hx hy, Distance.lt_iff_rank hfx hfy]
  · rw [level_iff_beq hx hy, Distance.beq_iff_rank hfx hfy]

end

theorem stand_text (s t : String) :
    Stand s t (((str s).compare? (str t)).getD .eq) ((str s).Below (str t))
      ((str s).Level (str t)) where
  order := rfl
  before := by
    refine ⟨fun h => ?_, .text⟩
    cases h with
    | number hv => cases hv
    | text lt => exact lt
  level := by
    refine ⟨fun h => ?_, fun h => h ▸ .text s⟩
    cases h with
    | number hv => cases hv
    | text => rfl

theorem stand_truth (b c : Bool) :
    Stand b c (((bool b).compare? (bool c)).getD .eq) ((bool b).Below (bool c))
      ((bool b).Level (bool c)) where
  order := rfl
  before := by
    refine ⟨fun h => ?_, fun h => ?_⟩
    · cases h with
      | number hv => cases hv
      | truth => decide
    · obtain ⟨rfl, rfl⟩ := Bool.lt_iff.1 h
      exact .truth
  level := by
    refine ⟨fun h => ?_, fun h => h ▸ .truth b⟩
    cases h with
    | number hv => cases hv
    | truth => rfl

theorem exists_grade {kind : Json → Bool} (hkind : ScalarKind kind) :
    ∃ (T : Type) (_ : LinearOrder T) (f : Json → T), ∀ v w, kind v = true → kind w = true →
      Stand (f v) (f w) ((v.compare? w).getD .eq) (v.Below w) (v.Level w) := by
  cases hkind with
  | number =>
    refine ⟨_, inferInstance, fun v => Distance.rank (v.float?.getD 0).toModel.unpack,
      fun v w hv hw => ?_⟩
    obtain ⟨x, hx⟩ := exists_float? hv
    obtain ⟨y, hy⟩ := exists_float? hw
    dsimp only
    rw [hx, hy]
    exact stand_number hx hy
  | text =>
    refine ⟨_, inferInstance, fun v => v.string?.getD "", fun v w hv hw => ?_⟩
    obtain ⟨s, rfl⟩ := exists_str hv
    obtain ⟨t, rfl⟩ := exists_str hw
    exact stand_text s t
  | truth =>
    refine ⟨_, inferInstance, fun v => v.bool?.getD false, fun v w hv hw => ?_⟩
    obtain ⟨b, rfl⟩ := exists_bool hv
    obtain ⟨c, rfl⟩ := exists_bool hw
    exact stand_truth b c

end Json

/-! ## Sort keys -/

namespace SortKey

/-- One row comes before another by a key: its value is below that of the other, or above it where
the direction is descending. -/
def Before (k : SortKey) (a b : Json) : Prop :=
  ∃ v w, a.get? k.column = some v ∧ b.get? k.column = some w ∧
    match k.direction with
    | .asc => v.Below w
    | .desc => w.Below v

/-- Two rows have equal values in the column of a key. -/
def Level (k : SortKey) (a b : Json) : Prop :=
  ∃ v w, a.get? k.column = some v ∧ b.get? k.column = some w ∧ v.Level w

def LevelAll (keys : List SortKey) (a b : Json) : Prop := ∀ k ∈ keys, k.Level a b

/-- One row comes before another by the first key on which the two are not level. -/
def Precedes (keys : List SortKey) (a b : Json) : Prop :=
  ∃ earlier k later, keys = earlier ++ k :: later ∧ LevelAll earlier a b ∧ k.Before a b

/-- All rows have a value in a column, and these are all numbers, all strings or all truth
values. -/
def Alike (column : String) (rows : List Json) : Prop :=
  ∃ kind, Json.ScalarKind kind ∧ ∀ row ∈ rows, ∃ v, row.get? column = some v ∧ kind v = true

variable {k : SortKey} {keys : List SortKey} {rows : List Json}

theorem levelAll_cons (k : SortKey) (keys : List SortKey) (a b : Json) :
    LevelAll (k :: keys) a b ↔ k.Level a b ∧ LevelAll keys a b := List.forall_mem_cons

theorem precedes_cons (k : SortKey) (keys : List SortKey) (a b : Json) :
    Precedes (k :: keys) a b ↔ k.Before a b ∨ k.Level a b ∧ Precedes keys a b := by
  constructor
  · rintro ⟨earlier, k', later, hkeys, hlevel, hbefore⟩
    cases earlier with
    | nil =>
      cases hkeys
      exact .inl hbefore
    | cons first earlier =>
      cases hkeys
      obtain ⟨hfirst, hlevel⟩ := (levelAll_cons _ _ a b).1 hlevel
      exact .inr ⟨hfirst, earlier, k', later, rfl, hlevel, hbefore⟩
  · rintro (hbefore | ⟨hlevel, earlier, k', later, rfl, hearlier, hbefore⟩)
    · exact ⟨[], k, keys, rfl, fun _ h => absurd h List.not_mem_nil, hbefore⟩
    · exact ⟨k :: earlier, k', later, rfl, (levelAll_cons k earlier a b).2 ⟨hlevel, hearlier⟩,
        hbefore⟩

section
variable {a b v w : Json} (hv : a.get? k.column = some v) (hw : b.get? k.column = some w)
include hv hw

theorem before_iff : k.Before a b ↔ match k.direction with
    | .asc => v.Below w
    | .desc => w.Below v := by
  simp only [Before, hv, hw, Option.some.injEq, exists_eq_left', exists_and_left]

theorem level_iff : k.Level a b ↔ v.Level w := by
  simp only [Level, hv, hw, Option.some.injEq, exists_eq_left', exists_and_left]

theorem order_eq : k.order a b = match k.direction with
    | .asc => (v.compare? w).getD .eq
    | .desc => ((v.compare? w).getD .eq).swap := by
  rw [order, hv, hw]
  rfl

end

/-- The order by one key is that of grades, turned around where the direction is descending. -/
theorem exists_grade (alike : Alike k.column rows) :
    ∃ (T : Type) (_ : LinearOrder T) (f : Json → T), ∀ a ∈ rows, ∀ b ∈ rows,
      Stand (f a) (f b) (k.order a b) (k.Before a b) (k.Level a b) := by
  obtain ⟨kind, hkind, halike⟩ := alike
  obtain ⟨T, _, f, hf⟩ := Json.exists_grade hkind
  let value (row : Json) : Json := (row.get? k.column).getD .null
  have hvalue : ∀ row ∈ rows, row.get? k.column = some (value row) ∧ kind (value row) = true := by
    intro row hrow
    obtain ⟨v, hv, hkind⟩ := halike row hrow
    simp only [value, hv, Option.getD_some]
    exact ⟨trivial, hkind⟩
  cases hdirection : k.direction with
  | asc =>
    refine ⟨T, inferInstance, fun row => f (value row), fun a ha b hb => ?_⟩
    obtain ⟨hv, hkv⟩ := hvalue a ha
    obtain ⟨hw, hkw⟩ := hvalue b hb
    rw [before_iff hv hw, level_iff hv hw, order_eq hv hw, hdirection]
    exact hf _ _ hkv hkw
  | desc =>
    refine ⟨Tᵒᵈ, inferInstance, fun row => OrderDual.toDual (f (value row)), fun a ha b hb => ?_⟩
    obtain ⟨hv, hkv⟩ := hvalue a ha
    obtain ⟨hw, hkw⟩ := hvalue b hb
    rw [before_iff hv hw, level_iff hv hw, order_eq hv hw, hdirection]
    exact (hf _ _ hkv hkw).swap (hf _ _ hkw hkv).before

/-- The order by several keys is that of the lists of their grades. -/
theorem exists_gradeAll (alike : ∀ k ∈ keys, Alike k.column rows) :
    ∃ (T : Type) (_ : LinearOrder T) (f : Json → T), ∀ a ∈ rows, ∀ b ∈ rows,
      Stand (f a) (f b) (orderAll keys a b) (Precedes keys a b) (LevelAll keys a b) := by
  induction keys with
  | nil =>
    refine ⟨Unit, inferInstance, fun _ => (), fun a _ b _ => ⟨rfl, ?_, ?_⟩⟩
    · simp [Precedes]
    · simp [LevelAll]
  | cons k keys ih =>
    obtain ⟨hk, hkeys⟩ := List.forall_mem_cons.1 alike
    obtain ⟨T, _, f, hf⟩ := exists_grade hk
    obtain ⟨U, _, g, hg⟩ := ih hkeys
    refine ⟨T ×ₗ U, inferInstance, fun row => toLex (f row, g row), fun a ha b hb => ?_⟩
    rw [precedes_cons, levelAll_cons]
    exact (hf a ha b hb).lex (hg a ha b hb)

end SortKey
end ModelActions
