import Mathlib
import ModelActions.Filter.Match

/-!
# Distances of floats

Two numbers are loosely equal if the absolute value of their difference is small. Neither that nor
equality of floats depends on which of the two is named first.
-/
namespace ModelActions.Distance
open Float.Model (UnpackedFloat Format)
open Float.Model.UnpackedFloat (Sign)

theorem abs_unpack_components (f : Format) {e : BitVec f.exponentBits}
    {m : BitVec f.mantissaBitsWithoutImplicit} (s t : Sign) :
    (UnpackedFloat.unpack f (UnpackedFloat.packComponents f s e m)).abs =
      (UnpackedFloat.unpack f (UnpackedFloat.packComponents f t e m)).abs := by
  simp only [UnpackedFloat.unpack, UnpackedFloat.unpackMantissa_packComponents,
    UnpackedFloat.unpackExponent_packComponents]
  by_cases h₁ : e = -1#_
  · rw [if_pos h₁, if_pos h₁]
    split <;> rfl
  · rw [if_neg h₁, if_neg h₁]
    by_cases h₂ : e = 0#_
    · rw [if_pos h₂, if_pos h₂]
      split <;> rfl
    · rw [if_neg h₂, if_neg h₂]
      rfl

/-- Packing keeps the sign apart from everything else. -/
theorem abs_unpack_pack (f : Format) {u v : UnpackedFloat} (h : u.abs = v.abs) :
    (UnpackedFloat.unpack f (UnpackedFloat.pack f u)).abs =
      (UnpackedFloat.unpack f (UnpackedFloat.pack f v)).abs := by
  cases u <;> cases v <;> simp only [UnpackedFloat.abs, reduceCtorEq] at h
  case infinity.infinity => exact abs_unpack_components f _ _
  case notANumber.notANumber => rfl
  case zero.zero => exact abs_unpack_components f _ _
  case finite.finite s m e hm t n k hn =>
    simp only [UnpackedFloat.finite.injEq, true_and] at h
    obtain ⟨rfl, rfl⟩ := h
    simp only [UnpackedFloat.pack]
    split
    · exact abs_unpack_components f _ _
    · split <;> exact abs_unpack_components f _ _

theorem abs_round (f : Format) (s t : Sign) (m : Nat) (e : Int) :
    (UnpackedFloat.round f s m e).abs = (UnpackedFloat.round f t m e).abs := by
  simp only [UnpackedFloat.round, UnpackedFloat.roundWithAccuracy]
  split <;> rfl

theorem abs_normalize_neg (f : Format) (m e : Int) (s : Sign) :
    (UnpackedFloat.normalize f (-m) e s).abs = (UnpackedFloat.normalize f m e s).abs := by
  simp only [UnpackedFloat.normalize]
  rcases Int.lt_trichotomy m 0 with h | rfl | h
  · rw [Int.compare_eq_gt.2 (by omega : 0 < -m), Int.compare_eq_lt.2 h]
    exact abs_round f _ _ _ _
  · rfl
  · rw [Int.compare_eq_lt.2 (by omega : -m < 0), Int.compare_eq_gt.2 h]
    simpa using abs_round f _ _ _ _

/-- Exchanging the operands changes no more than the sign of a difference. -/
theorem abs_unpacked_sub_comm (f : Format) (u v : UnpackedFloat) :
    (UnpackedFloat.sub f u v).abs = (UnpackedFloat.sub f v u).abs := by
  cases u <;> cases v
  case finite.finite s m e hm t n k hn =>
    simp only [UnpackedFloat.sub]
    rw [Int.min_comm, ← Int.neg_sub, abs_normalize_neg]
  case infinity.infinity s t => cases s <;> cases t <;> rfl
  case zero.zero s t => cases s <;> cases t <;> rfl
  all_goals rfl

theorem abs_sub_comm (x y : Float) : (x - y).abs = (y - x).abs := by
  have h := abs_unpack_pack Format.binary64
    (abs_unpacked_sub_comm Format.binary64 x.toModel.unpack y.toModel.unpack)
  exact congrArg (fun u => Float.ofModel (Float.Model.pack u)) h

theorem beq_comm (x y : Float) : (x == y) = (y == x) := by
  have symm (x y : Float) (h : (x == y) = true) : (y == x) = true := by
    rw [Float.beq_iff_ne_nan_and_eq] at h ⊢
    obtain ⟨hx, hy, h⟩ := h
    refine ⟨hy, hx, ?_⟩
    rcases h with h | h | h
    · exact .inl h.symm
    · exact .inr (.inr h.symm)
    · exact .inr (.inl h.symm)
  exact Bool.eq_iff_iff.2 ⟨symm x y, symm y x⟩

theorem beq_self {x : Float} (h : x.isFinite = true) : (x == x) = true := by
  rw [Float.beq_iff_ne_nan_and_eq]
  have hnan : x ≠ Float.nan := by
    rintro rfl
    revert h
    decide +kernel
  exact ⟨hnan, hnan, .inl rfl⟩

theorem beq_trans {x y z : Float} (hxy : (x == y) = true) (hyz : (y == z) = true) :
    (x == z) = true := by
  rw [Float.beq_iff_ne_nan_and_eq] at hxy hyz ⊢
  grind

end ModelActions.Distance
