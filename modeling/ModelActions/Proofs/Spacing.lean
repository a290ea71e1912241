import ModelActions.Proofs.Distance

/-!
# Spacing of floats

Two floats that are not proper fractions are equal or differ by at least the tolerance. Their
significands are full, and so is that of their difference, however it is rounded.
-/
namespace ModelActions.Distance
open Float.Model (UnpackedFloat Format totalExponent)
open Float.Model.UnpackedFloat

/-! ## Large floats -/

/-- Not less than `2^(lo + 52)` in absolute value: infinite, or with a full significand and an
exponent of at least `lo`. -/
inductive Large (lo : Int) (s : Sign) : UnpackedFloat → Prop
  | infinity : Large lo s (.infinity s)
  | finite {m : Nat} {e : Int} (hm : 0 < m) (full : m.log2 = 52) (large : lo ≤ e) :
      Large lo s (.finite s m e hm)

theorem Large.abs {lo : Int} {s : Sign} {u : UnpackedFloat} (h : Large lo s u) :
    Large lo .positive u.abs := by
  cases h with
  | infinity => exact .infinity
  | finite hm full large => exact .finite hm full large

theorem Large.neg {lo : Int} {s : Sign} {u : UnpackedFloat} (h : Large lo s u) :
    Large lo (-s) u.neg := by
  cases h with
  | infinity => exact .infinity
  | finite hm full large => exact .finite hm full large

theorem Large.mono {lo lo' : Int} {s : Sign} {u : UnpackedFloat} (h : Large lo s u)
    (hlo : lo' ≤ lo) : Large lo' s u := by
  cases h with
  | infinity => exact .infinity
  | finite hm full large => exact .finite hm full (hlo.trans large)

theorem Large.not_lt {lo : Int} {u : UnpackedFloat} (h : Large lo .positive u) :
    u.lt (.finite .positive (2 ^ 52) lo (by decide)) = false := by
  cases h with
  | infinity => rfl
  | finite hm full large =>
    obtain ⟨hlo, -⟩ := (Nat.log2_eq_iff hm.ne').1 full
    rw [UnpackedFloat.lt, UnpackedFloat.compare, beq_eq_false_iff_ne, Ne, Option.some.injEq,
      Ordering.then_eq_lt, compare_lt_iff_lt, compare_eq_iff_eq, compare_lt_iff_lt]
    omega

/-! ## Packing -/

theorem toNat_append_one (m : BitVec 52) : (1#1 ++ m).toNat = 2 ^ 52 + m.toNat := by
  rw [BitVec.toNat_append, ← Nat.shiftLeft_add_eq_or_of_lt m.isLt]
  rfl

theorem log2_append_one (m : BitVec 52) : (1#1 ++ m).toNat.log2 = 52 := by
  have hm := m.isLt
  rw [toNat_append_one, Nat.log2_eq_iff (by omega)]
  omega

theorem ofBitVec_unpackSign (f : Format) (s : Sign) (e : BitVec f.exponentBits)
    (m : BitVec f.mantissaBitsWithoutImplicit) :
    Sign.ofBitVec (unpackSign (packComponents f s e m)) = s := by
  have h : unpackSign (packComponents f s e m) = s.toBitVec := by
    apply BitVec.eq_of_getLsbD_eq
    intro i hi
    obtain rfl : i = 0 := by omega
    simp [unpackSign, packComponents, BitVec.getLsbD_append, BitVec.getElem_append]
  rw [h]
  cases s <;> rfl

theorem unpack_packedInfinity (s : Sign) :
    unpack Format.binary64 (packedInfinity Format.binary64 s) = .infinity s := by
  simp [unpack, packedInfinity]

/-- A float with a full significand is packed without loss, if it does not overflow. -/
theorem unpack_pack_of_le (s : Sign) {m : Nat} {e : Int} (hm : 0 < m) (full : m.log2 = 52)
    (large : -1074 ≤ e) (small : e ≤ 971) :
    unpack Format.binary64 (pack Format.binary64 (.finite s m e hm)) = .finite s m e hm := by
  obtain ⟨hlo, hhi⟩ := (Nat.log2_eq_iff hm.ne').1 full
  have hbits : m.log2 + 1 = Format.binary64.mantissaBits := by rw [full]; rfl
  have hbias : (Format.binary64.exponentBias : Int) + Format.binary64.mantissaBitsWithoutImplicit =
    1075 := by decide
  simp only [pack, hbits, if_true]
  rw [Int.add_assoc, hbias, if_neg (by omega)]
  have hexp : (e + 1075).toNat < 2 ^ 11 := by
    omega
  have hmant : (1#1 ++ BitVec.ofNat 52 m).toNat = m := by
    rw [toNat_append_one, BitVec.toNat_ofNat]
    omega
  have htop : BitVec.ofNat 11 (e + 1075).toNat ≠ -1#11 := by
    rw [Ne, ← BitVec.toNat_inj, BitVec.toNat_ofNat, Nat.mod_eq_of_lt hexp]
    simp
    omega
  have hzero : BitVec.ofNat 11 (e + 1075).toNat ≠ 0#11 := by
    rw [Ne, ← BitVec.toNat_inj, BitVec.toNat_ofNat, Nat.mod_eq_of_lt hexp]
    simp
    omega
  simp only [unpack, unpackMantissa_packComponents, unpackExponent_packComponents,
    ofBitVec_unpackSign, htop, hzero, if_false, hbias, hmant, BitVec.toNat_ofNat]
  rw [Nat.mod_eq_of_lt hexp]
  congr 1
  omega

theorem unpack_pack_finite (s : Sign) {m : Nat} {e : Int} (hm : 0 < m) (full : m.log2 = 52)
    (large : -1074 ≤ e) :
    unpack Format.binary64 (pack Format.binary64 (.finite s m e hm)) = .finite s m e hm ∨
      unpack Format.binary64 (pack Format.binary64 (.finite s m e hm)) = .infinity s := by
  rcases le_or_gt e 971 with small | h
  · exact .inl (unpack_pack_of_le s hm full large small)
  · have hbias : (Format.binary64.exponentBias : Int) +
        Format.binary64.mantissaBitsWithoutImplicit = 1075 := by decide
    have hover : 2 ^ Format.binary64.exponentBits ≤ (e + 1075).toNat + 1 := by
      have hbits : 2 ^ Format.binary64.exponentBits = 2048 := rfl
      omega
    right
    simp only [pack]
    rw [Int.add_assoc, hbias, if_pos hover]
    exact unpack_packedInfinity s

theorem Large.unpack_pack {lo : Int} {s : Sign} {u : UnpackedFloat} (h : Large lo s u)
    (hlo : -1074 ≤ lo) : Large lo s (unpack Format.binary64 (pack Format.binary64 u)) := by
  cases h with
  | infinity =>
    rw [pack, unpack_packedInfinity]
    exact .infinity
  | finite hm full large =>
    rcases unpack_pack_finite s hm full (hlo.trans large) with h | h
    · rw [h]
      exact .finite hm full large
    · rw [h]
      exact .infinity

/-! ## Rounding -/

theorem mantissa_shiftRight (em : ExtendedMantissa) (k : Nat) :
    (em >>> k).mantissa = em.mantissa / 2 ^ k := by
  induction k with
  | zero => simp [HShiftRight.hShiftRight, Nat.repeat]
  | succ k ih =>
    have hsucc : (em >>> (k + 1)).mantissa = (em >>> k).mantissa / 2 := rfl
    rw [hsucc, ih, Nat.div_div_eq_div_mul, Nat.pow_succ]

theorem roundedMantissa_bounds (em : ExtendedMantissa) :
    em.mantissa ≤ em.roundedMantissa ∧ em.roundedMantissa ≤ em.mantissa + 1 := by
  rcases em with ⟨m, _ | _, _ | _⟩ <;>
    simp only [ExtendedMantissa.roundedMantissa, ExtendedMantissa.accuracy,
      Accuracy.roundToNearestEven] <;> omega

theorem targetExponent_eq {m : Nat} {e : Int} (range : -1022 ≤ m.log2 + e) :
    Format.binary64.targetExponent (totalExponent m e) = m.log2 + e - 52 := by
  have hmin : Format.binary64.minExponent = -1074 := by decide
  have hbits : (Format.binary64.mantissaBits : Int) = 53 := rfl
  rw [Format.targetExponent, totalExponent, hmin, hbits]
  omega

/-- A significand of at least 53 bits is cut to 53 bits. -/
theorem shift_of_full {m : Nat} {e : Int} (full : 52 ≤ m.log2) (range : -1022 ≤ m.log2 + e) :
    (shiftToTargetExponent Format.binary64 m e .exact).1.mantissa = m / 2 ^ (m.log2 - 52) ∧
      (shiftToTargetExponent Format.binary64 m e .exact).2 = m.log2 + e - 52 := by
  have hshift : (m.log2 + e - 52 - e).toNat = m.log2 - 52 := by omega
  rw [shiftToTargetExponent, shiftToExponent, targetExponent_eq range, hshift]
  refine ⟨mantissa_shiftRight _ _, ?_⟩
  dsimp only
  omega

theorem div_two_pow_bounds {m : Nat} (full : 52 ≤ m.log2) :
    2 ^ 52 ≤ m / 2 ^ (m.log2 - 52) ∧ m / 2 ^ (m.log2 - 52) < 2 ^ 53 := by
  have hm : m ≠ 0 := by
    rintro rfl
    simp at full
  obtain ⟨hlo, hhi⟩ := (Nat.log2_eq_iff hm).1 rfl
  have hpos : 0 < 2 ^ (m.log2 - 52) := Nat.two_pow_pos _
  rw [Nat.le_div_iff_mul_le hpos, Nat.div_lt_iff_lt_mul hpos, ← Nat.pow_add, ← Nat.pow_add,
    Nat.add_sub_of_le full, show 53 + (m.log2 - 52) = m.log2 + 1 by omega]
  exact ⟨hlo, hhi⟩

/-- Rounding makes a number with a full significand no smaller. -/
theorem roundWithAccuracy_large (s : Sign) {m : Nat} {e : Int} (full : 52 ≤ m.log2)
    (range : -1022 ≤ m.log2 + e) :
    Large (m.log2 + e - 52) s (roundWithAccuracy Format.binary64 s m e .exact) := by
  obtain ⟨hmantissa, hexponent⟩ := shift_of_full full range
  obtain ⟨hlo, hhi⟩ := div_two_pow_bounds full
  rw [roundWithAccuracy]
  generalize shiftToTargetExponent Format.binary64 m e .exact = first at hmantissa hexponent
  obtain ⟨em, e'⟩ := first
  dsimp only at hmantissa hexponent ⊢
  subst hexponent
  obtain ⟨hr, hr'⟩ := roundedMantissa_bounds em
  generalize em.roundedMantissa = r at hr hr'
  have hrlog : 52 ≤ r.log2 := (Nat.le_log2 (by omega)).2 (by omega)
  obtain ⟨hfinal, hlast⟩ := shift_of_full (m := r) (e := m.log2 + e - 52) hrlog (by omega)
  obtain ⟨hflo, hfhi⟩ := div_two_pow_bounds hrlog
  rw [hfinal, hlast, dif_neg (by omega)]
  refine .finite _ ?_ (by omega)
  exact (Nat.log2_eq_iff (by omega)).2 ⟨hflo, hfhi⟩

theorem log2_shiftLeft {m : Nat} (hm : m ≠ 0) (k : Nat) : (m <<< k).log2 = m.log2 + k := by
  obtain ⟨hlo, hhi⟩ := (Nat.log2_eq_iff hm).1 rfl
  have hpos : 0 < 2 ^ k := Nat.two_pow_pos k
  rw [Nat.shiftLeft_eq, Nat.log2_eq_iff (by positivity), Nat.pow_add, show m.log2 + k + 1 =
    m.log2 + 1 + k by omega, Nat.pow_add 2 (m.log2 + 1)]
  exact ⟨Nat.mul_le_mul_right _ hlo, Nat.mul_lt_mul_of_pos_right hhi hpos⟩

theorem round_large (s : Sign) {m : Nat} {e : Int} (hm : 0 < m) (range : -1022 ≤ m.log2 + e) :
    Large (m.log2 + e - 52) s (round Format.binary64 s m e) := by
  have hlog := log2_shiftLeft hm.ne' (e - (m.log2 + e - 52)).toNat
  have hround := roundWithAccuracy_large s (m := m <<< (e - (m.log2 + e - 52)).toNat)
    (e := e - (e - (m.log2 + e - 52)).toNat) (by omega) (by omega)
  rw [UnpackedFloat.round, targetExponent_eq range]
  exact hround.mono (by omega)

theorem normalize_large_of_pos {n : Nat} {e : Int} (hn : 0 < n) (range : -1022 ≤ n.log2 + e) :
    Large (n.log2 + e - 52) .positive (normalize Format.binary64 n e .positive) := by
  rw [UnpackedFloat.normalize, Int.compare_eq_gt.2 (by omega)]
  exact round_large _ hn range

theorem normalize_large {d : Int} {e : Int} (hd : d ≠ 0) (range : -1022 ≤ d.natAbs.log2 + e) :
    ∃ s, Large (d.natAbs.log2 + e - 52) s (normalize Format.binary64 d e .positive) := by
  rcases Int.lt_or_lt_of_ne hd with h | h
  · have hnat : (-d).toNat = d.natAbs := by omega
    rw [UnpackedFloat.normalize, Int.compare_eq_lt.2 h]
    dsimp only
    rw [hnat]
    exact ⟨_, round_large _ (by omega) range⟩
  · have hnat : (d.natAbs : Int) = d := by omega
    have hlarge := normalize_large_of_pos (by omega) range
    rw [hnat] at hlarge
    exact ⟨_, hlarge⟩

/-! ## Differences of coarse floats -/

/-- Zero, or not less than one in absolute value. -/
inductive Coarse : UnpackedFloat → Prop
  | zero (s : Sign) : Coarse (.zero s)
  | finite (s : Sign) {m : Nat} {e : Int} (hm : 0 < m) (full : m.log2 = 52) (large : -52 ≤ e) :
      Coarse (.finite s m e hm)

/-- A number has one normal form only. -/
theorem normal_inj {m n i j : Nat} (hm : m.log2 = 52) (hn : n.log2 = 52)
    (h : m <<< i = n <<< j) : m = n ∧ i = j := by
  have hpos {m : Nat} (hm : m.log2 = 52) : m ≠ 0 := by
    rintro rfl
    simp at hm
  have hlog := congrArg Nat.log2 h
  rw [log2_shiftLeft (hpos hm), log2_shiftLeft (hpos hn), hm, hn] at hlog
  obtain rfl : i = j := by omega
  rw [Nat.shiftLeft_eq, Nat.shiftLeft_eq] at h
  exact ⟨Nat.eq_of_mul_eq_mul_right (Nat.two_pow_pos i) h, rfl⟩

theorem shifted_inj {m n : Nat} {d e : Int} (hm : m.log2 = 52) (hn : n.log2 = 52)
    (h : m <<< (d - min d e).toNat = n <<< (e - min d e).toNat) : m = n ∧ d = e := by
  obtain ⟨rfl, hshift⟩ := normal_inj hm hn h
  exact ⟨rfl, by omega⟩

theorem beq_finite {s t : Sign} {m n : Nat} {e k : Int} (hm : 0 < m) (hn : 0 < n) :
    (UnpackedFloat.finite s m e hm).beq (.finite t n k hn) = true ↔ s = t ∧ m = n ∧ e = k := by
  have hthen : (compare e k).then (compare m n) = .eq ↔ m = n ∧ e = k := by
    rw [Ordering.then_eq_eq, compare_eq_iff_eq, compare_eq_iff_eq, and_comm]
  cases s <;> cases t <;>
    simp [UnpackedFloat.beq, UnpackedFloat.compare, Ordering.swap_eq_eq, hthen]

theorem apply_inj {s t : Sign} {m n : Nat} (hm : 0 < m) (hn : 0 < n)
    (h : s.apply m - t.apply n = 0) : s = t ∧ m = n := by
  cases s <;> cases t <;> simp only [Sign.apply] at h <;> simp <;> omega

theorem sub_of_finite {s t : Sign} {m n : Nat} {e k : Int} (hm : 0 < m) (hn : 0 < n)
    (full : m.log2 = 52) (full' : n.log2 = 52) (large : -52 ≤ e) (large' : -52 ≤ k) :
    ((UnpackedFloat.finite s m e hm).beq (.finite t n k hn) = true ∧
        ∃ sign, sub Format.binary64 (.finite s m e hm) (.finite t n k hn) = .zero sign) ∨
      ((UnpackedFloat.finite s m e hm).beq (.finite t n k hn) = false ∧
        ∃ sign, Large (-104) sign (sub Format.binary64 (.finite s m e hm) (.finite t n k hn))) := by
  let d : Int := s.apply (m <<< (e - min e k).toNat : Nat) -
    t.apply (n <<< (k - min e k).toNat : Nat)
  have hsub : sub Format.binary64 (.finite s m e hm) (.finite t n k hn) =
      normalize Format.binary64 d (min e k) .positive := rfl
  by_cases hd : d = 0
  · left
    have hpos {m : Nat} (hm : 0 < m) (i : Nat) : 0 < m <<< i := by
      rw [Nat.shiftLeft_eq]
      positivity
    obtain ⟨rfl, hshift⟩ := apply_inj (hpos hm _) (hpos hn _) hd
    obtain ⟨rfl, rfl⟩ := shifted_inj full full' hshift
    refine ⟨(beq_finite hm hn).2 ⟨rfl, rfl, rfl⟩, .positive, ?_⟩
    rw [hsub, hd]
    rfl
  · right
    obtain ⟨sign, hlarge⟩ := normalize_large (e := min e k) hd (by omega)
    refine ⟨?_, sign, hsub ▸ hlarge.mono (by omega)⟩
    rw [Bool.eq_false_iff, Ne, beq_finite hm hn]
    rintro ⟨rfl, rfl, rfl⟩
    exact hd (Int.sub_self _)

/-- Two coarse floats are equal, or their difference is not less than the tolerance. -/
theorem sub_of_coarse {u v : UnpackedFloat} (hu : Coarse u) (hv : Coarse v) :
    (u.beq v = true ∧ ∃ s, sub Format.binary64 u v = .zero s) ∨
      (u.beq v = false ∧ ∃ s, Large (-104) s (sub Format.binary64 u v)) := by
  cases hu with
  | zero s =>
    cases hv with
    | zero t =>
      left
      refine ⟨rfl, ?_⟩
      cases s <;> cases t <;> exact ⟨_, rfl⟩
    | finite t hn full large =>
      right
      refine ⟨by cases t <;> rfl, ?_⟩
      exact ⟨_, .finite hn full (by omega)⟩
  | finite s hm full large =>
    cases hv with
    | zero t =>
      right
      refine ⟨by cases s <;> rfl, ?_⟩
      exact ⟨s, .finite hm full (by omega)⟩
    | finite t hn full' large' => exact sub_of_finite hm hn full full' large large'

theorem unpack_tolerance :
    Json.tolerance.toModel.unpack = .finite .positive (2 ^ 52) (-104) (by decide) := rfl

theorem unpack_one : (1 : Float).toModel.unpack = .finite .positive (2 ^ 52) (-52) (by decide) :=
  rfl

theorem unpack_neg_one :
    (-1 : Float).toModel.unpack = .finite .negative (2 ^ 52) (-52) (by decide) := rfl

theorem lt_iff {x y : Float} : x < y ↔ x.toModel.unpack.lt y.toModel.unpack = true :=
  decide_eq_true_iff

theorem le_iff {x y : Float} : x ≤ y ↔ x.toModel.unpack.le y.toModel.unpack = true :=
  decide_eq_true_iff

theorem abs_lt_tolerance_of_zero (s : Sign) :
    (Float.ofModel (Float.Model.pack (.zero s))).abs < Json.tolerance := by
  cases s <;> decide +kernel

theorem not_abs_lt_tolerance_of_large {s : Sign} {u : UnpackedFloat} (h : Large (-104) s u) :
    ¬(Float.ofModel (Float.Model.pack u)).abs < Json.tolerance := by
  have habs : (Float.ofModel (Float.Model.pack u)).abs.toModel.unpack =
      unpack Format.binary64 (pack Format.binary64
        (unpack Format.binary64 (pack Format.binary64 u)).abs) := rfl
  have hpacked := (h.unpack_pack (by decide)).abs.unpack_pack (by decide)
  rw [lt_iff, habs, unpack_tolerance, hpacked.not_lt]
  exact Bool.false_ne_true

/-- A number is close to itself. -/
theorem abs_sub_self {x : Float} (h : x.isFinite = true) : (x - x).abs < Json.tolerance := by
  have hsub : x - x =
      .ofModel (.pack (sub Format.binary64 x.toModel.unpack x.toModel.unpack)) := rfl
  have hfinite : x.toModel.unpack.isFinite = true := h
  have hzero : ∃ s, sub Format.binary64 x.toModel.unpack x.toModel.unpack = .zero s := by
    cases hx : x.toModel.unpack with
    | finite s m e hm =>
      refine ⟨.positive, ?_⟩
      simp only [sub, decreaseExponent, Int.sub_self]
      rfl
    | zero s => cases s <;> exact ⟨_, rfl⟩
    | _ =>
      rw [hx] at hfinite
      cases hfinite
  obtain ⟨s, hs⟩ := hzero
  rw [hsub, hs]
  exact abs_lt_tolerance_of_zero s

/-- Coarse numbers that are close to each other are equal. -/
theorem close_iff_beq {x y : Float} (hx : Coarse x.toModel.unpack) (hy : Coarse y.toModel.unpack) :
    (x - y).abs < Json.tolerance ↔ (x == y) = true := by
  have hsub : x - y =
      .ofModel (.pack (sub Format.binary64 x.toModel.unpack y.toModel.unpack)) := rfl
  have hbeq : (x == y) = x.toModel.unpack.beq y.toModel.unpack := rfl
  rw [hsub, hbeq]
  rcases sub_of_coarse hx hy with ⟨heq, s, hs⟩ | ⟨hne, s, hlarge⟩
  · rw [hs, heq]
    exact iff_of_true (abs_lt_tolerance_of_zero s) rfl
  · rw [hne]
    exact iff_of_false (not_abs_lt_tolerance_of_large hlarge) Bool.false_ne_true

/-! ## Which floats are coarse -/

/-- What is unpacked has a full significand, unless it is subnormal. -/
theorem log2_of_unpack {b : BitVec Format.binary64.numBits} {s : Sign} {m : Nat} {e : Int}
    {hm : 0 < m} (h : unpack Format.binary64 b = .finite s m e hm) : m.log2 = 52 ∨ e = -1074 := by
  simp only [unpack] at h
  split at h
  · split at h <;> cases h
  · split at h
    · split at h
      · cases h
      · next hzero _ =>
        rw [UnpackedFloat.finite.injEq] at h
        right
        rw [← h.2.2, hzero]
        rfl
    · rw [UnpackedFloat.finite.injEq] at h
      left
      rw [← h.2.1]
      exact log2_append_one _

/-- A number that is not less than one has a full significand. -/
theorem Large.of_one_le {x : Float} (h : 1 ≤ x) : Large (-52) .positive x.toModel.unpack := by
  rw [le_iff, unpack_one] at h
  cases hx : x.toModel.unpack with
  | infinity s =>
    rw [hx] at h
    cases s with
    | positive => exact .infinity
    | negative => cases h
  | notANumber =>
    rw [hx] at h
    cases h
  | zero s =>
    rw [hx] at h
    cases h
  | finite s m e hm =>
    rw [hx] at h
    cases s with
    | negative => cases h
    | positive =>
      have hle : -52 ≤ e := by
        rw [UnpackedFloat.le, UnpackedFloat.compare, Option.any_some,
          Ordering.isLE_then_iff_and] at h
        exact Int.isLE_compare.1 h.1
      refine .finite hm ?_ hle
      exact (log2_of_unpack hx).resolve_right (by omega)

theorem Large.of_le_neg_one {x : Float} (h : x ≤ -1) : Large (-52) .negative x.toModel.unpack := by
  rw [le_iff, unpack_neg_one] at h
  cases hx : x.toModel.unpack with
  | infinity s =>
    rw [hx] at h
    cases s with
    | positive => cases h
    | negative => exact .infinity
  | notANumber =>
    rw [hx] at h
    cases h
  | zero s =>
    rw [hx] at h
    cases h
  | finite s m e hm =>
    rw [hx] at h
    cases s with
    | positive => cases h
    | negative =>
      have hle : -52 ≤ e := by
        rw [UnpackedFloat.le, UnpackedFloat.compare, Option.any_some, Ordering.swap_then,
          Ordering.isLE_then_iff_and, Ordering.isLE_swap] at h
        exact Int.isGE_compare.1 h.1
      refine .finite hm ?_ hle
      exact (log2_of_unpack hx).resolve_right (by omega)

theorem Coarse.of_large {s : Sign} {u : UnpackedFloat} (h : Large (-52) s u)
    (finite : u.isFinite = true) : Coarse u := by
  cases h with
  | infinity => cases finite
  | finite hm full large => exact .finite s hm full large

theorem Coarse.of_beq_zero {x : Float} (h : (x == 0) = true) : Coarse x.toModel.unpack := by
  have hbeq : (x == 0) = x.toModel.unpack.beq (.zero .positive) := rfl
  rw [hbeq] at h
  cases hx : x.toModel.unpack with
  | zero s => exact .zero s
  | infinity s => rw [hx] at h; cases s <;> cases h
  | notANumber => rw [hx] at h; cases h
  | finite s m e hm => rw [hx] at h; cases s <;> cases h

/-- Multiplying by one makes a number with a full significand no smaller. -/
theorem Large.mul_one {lo : Int} {u : UnpackedFloat} (h : Large lo .positive u)
    (hlo : -1074 ≤ lo) :
    Large lo .positive (mul Format.binary64 u (.finite .positive (2 ^ 52) (-52) (by decide))) := by
  cases h with
  | infinity => exact .infinity
  | @finite m e hm full large =>
    have hlog : (m * 2 ^ 52).log2 = 104 := by
      rw [← Nat.shiftLeft_eq, log2_shiftLeft hm.ne', full]
    have hround := roundWithAccuracy_large .positive (m := m * 2 ^ 52) (e := e + -52) (by omega)
      (by omega)
    exact hround.mono (by omega)

theorem large_ofScientific {n : Nat} (hn : 0 < n) :
    Large (-52) .positive (UnpackedFloat.ofScientific Format.binary64 n 0) := by
  have hlog : (n <<< 53 * 10 ^ 0).log2 = n.log2 + 53 := by
    rw [Nat.pow_zero, Nat.mul_one, log2_shiftLeft hn.ne']
  have hbits : (2 : Int) ^ Format.binary64.exponentBits = 2048 := rfl
  have hround := roundWithAccuracy_large .positive (m := n <<< 53 * 10 ^ 0) (e := -53 + 0)
    (by omega) (by omega)
  rw [UnpackedFloat.ofScientific, dif_neg hn.ne', if_neg (by decide), if_neg (by omega),
    if_pos (by decide)]
  exact hround.mono (by omega)

/-- A count that fits into a significand is converted as it is, and multiplied by one. -/
theorem unpack_ofNat_of_lt {n : Nat} (h : n < 2 ^ 53) :
    (Float.ofNat n).toModel.unpack = unpack Format.binary64 (pack Format.binary64
      (mul Format.binary64
        (unpack Format.binary64 (pack Format.binary64 (normalize Format.binary64 n 0 .positive)))
        (.finite .positive (2 ^ 52) (-52) (by decide)))) := by
  have hofNat : Float.ofNat n = Float.ofScientific n false 0 := rfl
  have hnat : n.toUInt64.toNat = n := by
    rw [Nat.toUInt64, UInt64.toNat_ofNat']
    omega
  have hproduct : (n.toUInt64.toFloat * Float.exactlyRepresentablePowersOfTen[0]).toModel.unpack =
      unpack Format.binary64 (pack Format.binary64 (mul Format.binary64
        (unpack Format.binary64
          (pack Format.binary64 (normalize Format.binary64 n.toUInt64.toNat 0 .positive)))
        (.finite .positive (2 ^ 52) (-52) (by decide)))) := rfl
  rw [hofNat, Float.ofScientific, dif_pos ⟨h, by decide⟩]
  simp only [Bool.false_eq_true, if_false]
  rw [hproduct, hnat]

theorem unpack_ofNat_of_le {n : Nat} (h : 2 ^ 53 ≤ n) :
    (Float.ofNat n).toModel.unpack = unpack Format.binary64 (pack Format.binary64
      (UnpackedFloat.ofScientific Format.binary64 n 0)) := by
  have hofNat : Float.ofNat n = Float.ofScientific n false 0 := rfl
  rw [hofNat, Float.ofScientific, dif_neg fun hsmall => by omega]
  rfl

theorem large_ofNat {n : Nat} (hn : 0 < n) :
    Large (-52) .positive (Float.ofNat n).toModel.unpack := by
  rcases Nat.lt_or_ge n (2 ^ 53) with h | h
  · have hnormal := normalize_large_of_pos (e := 0) hn (by omega)
    have hpacked := (hnormal.mono (by omega : -52 ≤ _)).unpack_pack (by decide)
    rw [unpack_ofNat_of_lt h]
    exact (hpacked.mul_one (by decide)).unpack_pack (by decide)
  · rw [unpack_ofNat_of_le h]
    exact (large_ofScientific hn).unpack_pack (by decide)

/-- Integers are coarse, also where they are rounded. -/
theorem coarse_nearestFloat (n : Int) : Coarse (Json.nearestFloat n).toModel.unpack := by
  have hfinite := Json.isFinite_nearestFloat n
  unfold Json.nearestFloat at hfinite ⊢
  split at hfinite
  · next h =>
    rw [if_pos h]
    cases n with
    | ofNat n =>
      rcases Nat.eq_zero_or_pos n with rfl | hn
      · exact .of_beq_zero (by rfl)
      · exact .of_large (large_ofNat hn) hfinite
    | negSucc n =>
      have hneg : (Float.ofInt (.negSucc n)).toModel.unpack = unpack Format.binary64
          (pack Format.binary64 (Float.ofNat (n + 1)).toModel.unpack.neg) := rfl
      refine .of_large (s := -.positive) ?_ hfinite
      rw [hneg]
      exact (large_ofNat (Nat.succ_pos n)).neg.unpack_pack (by decide)
  · next h =>
    rw [if_neg h]
    split
    · exact .of_large (.of_le_neg_one (by decide +kernel)) (by rfl)
    · exact .of_large (.of_one_le (by decide +kernel)) (by rfl)

end ModelActions.Distance
