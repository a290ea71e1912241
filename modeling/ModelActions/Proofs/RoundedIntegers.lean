import ModelActions.Proofs.LooseEquality

/-!
# Rounded integers

Integers are compared as floats. A float has room for 53 significant bits, so an integer counts as
the nearest number that has no more, and of two that are equally near as the one whose last bit is
zero. Integers up to `2^53` in absolute value count as themselves.
-/
namespace ModelActions.Distance
open Float.Model (UnpackedFloat Format)
open Float.Model.UnpackedFloat

/-! ## Rounding integers -/

/-- A number counted in units, to the nearest whole, ties to the even one. -/
def inUnits (n unit : ℕ) : ℕ :=
  if 2 * (n % unit) < unit ∨ 2 * (n % unit) = unit ∧ n / unit % 2 = 0 then n / unit
  else n / unit + 1

/-- The unit in which the first 53 bits of a number count. -/
def unitOf (n : ℕ) : ℕ := 2 ^ (n.log2 - 52)

theorem unitOf_pos (n : ℕ) : 0 < unitOf n := Nat.two_pow_pos _

/-- The nearest number with at most 53 significant bits, ties to even. -/
def roundedNat (n : ℕ) : ℕ := inUnits n (unitOf n) * unitOf n

def rounded : ℤ → ℤ
  | .ofNat n => roundedNat n
  | .negSucc n => -roundedNat (n + 1)

theorem inUnits_mul (q : ℕ) {unit : ℕ} (h : 0 < unit) : inUnits (q * unit) unit = q := by
  rw [inUnits, Nat.mul_mod_left, Nat.mul_div_cancel q h, if_pos (.inl h)]

theorem inUnits_scale (n unit : ℕ) {c : ℕ} (hc : 0 < c) :
    inUnits (n * c) (unit * c) = inUnits n unit := by
  simp only [inUnits, Nat.mul_mod_mul_right, Nat.mul_div_mul_right n unit hc, ← Nat.mul_assoc,
    Nat.mul_lt_mul_right hc, Nat.mul_left_inj hc.ne']

theorem roundedNat_of_lt {n : ℕ} (h : n < 2 ^ 53) : roundedNat n = n := by
  have hlog : n.log2 - 52 = 0 := by
    rcases Nat.eq_zero_or_pos n with rfl | hn
    · rfl
    · have := (Nat.log2_lt hn.ne').2 h
      omega
  have hunits := inUnits_mul n Nat.one_pos
  rw [Nat.mul_one] at hunits
  rw [roundedNat, unitOf, hlog, Nat.pow_zero, hunits, Nat.mul_one]

/-- A number with bits after the first 53 or with room for them. -/
theorem inUnits_shifted {n j : ℕ} (full : 52 ≤ n.log2 + j) :
    inUnits (n * 2 ^ j) (2 ^ (n.log2 + j - 52)) * 2 ^ n.log2 = roundedNat n * 2 ^ 52 := by
  rcases Nat.lt_or_ge n.log2 52 with h | h
  · have hn : n < 2 ^ 53 := by
      refine Nat.lt_log2_self.trans_le (Nat.pow_le_pow_right (by decide) (by omega))
    have hsplit : n * 2 ^ j = n * 2 ^ (52 - n.log2) * 2 ^ (n.log2 + j - 52) := by
      rw [Nat.mul_assoc, ← Nat.pow_add]
      congr 2
      omega
    rw [hsplit, inUnits_mul _ (Nat.two_pow_pos _), roundedNat_of_lt hn, Nat.mul_assoc,
      ← Nat.pow_add]
    congr 2
    omega
  · have hunit : 2 ^ (n.log2 + j - 52) = unitOf n * 2 ^ j := by
      rw [unitOf, ← Nat.pow_add]
      congr 1
      omega
    have hlog : 2 ^ n.log2 = unitOf n * 2 ^ 52 := by
      rw [unitOf, ← Nat.pow_add]
      congr 1
      omega
    rw [hunit, inUnits_scale n _ (Nat.two_pow_pos j), hlog, ← Nat.mul_assoc]
    rfl

/-! ## The nearest number -/

/-- A number that has at most 53 significant bits. -/
def Significant (n : ℕ) : Prop := ∃ m e : ℕ, m < 2 ^ 53 ∧ n = m * 2 ^ e

/-- A count is less than half a unit away, or just half and even. -/
theorem inUnits_bounds (n : ℕ) {unit : ℕ} (h : 0 < unit) :
    2 * (inUnits n unit * unit) ≤ 2 * n + unit ∧ 2 * n ≤ 2 * (inUnits n unit * unit) + unit ∧
      (2 * n = 2 * (inUnits n unit * unit) + unit ∨ 2 * (inUnits n unit * unit) = 2 * n + unit →
        inUnits n unit % 2 = 0) := by
  have hdiv := Nat.div_add_mod n unit
  have hmod := Nat.mod_lt n h
  have hsucc : (n / unit + 1) * unit = unit * (n / unit) + unit := by ring
  have hmul : n / unit * unit = unit * (n / unit) := Nat.mul_comm _ _
  unfold inUnits
  generalize unit * (n / unit) = p at *
  split
  · rw [hmul]
    omega
  · rw [hsucc]
    omega

theorem inUnits_nearest (n : ℕ) {unit : ℕ} (h : 0 < unit) (q : ℕ) :
    ((inUnits n unit * unit : ℕ) - n : ℤ).natAbs ≤ ((q * unit : ℕ) - n : ℤ).natAbs := by
  obtain ⟨hup, hdown, -⟩ := inUnits_bounds n h
  generalize inUnits n unit = r at *
  have hstep {q r : ℕ} (hlt : q < r) : q * unit + unit ≤ r * unit := by
    have := Nat.mul_le_mul_right unit (Nat.succ_le_of_lt hlt)
    rwa [Nat.succ_mul] at this
  rcases lt_trichotomy q r with hlt | rfl | hgt
  · have := hstep hlt
    omega
  · exact le_rfl
  · have := hstep hgt
    omega

theorem log2_of_le {n : ℕ} (h : 2 ^ 53 ≤ n) : 53 ≤ n.log2 := (Nat.le_log2 (by omega)).2 h

/-- Rounding leaves at most 53 significant bits. -/
theorem significant_roundedNat (n : ℕ) : Significant (roundedNat n) := by
  rcases Nat.lt_or_ge n (2 ^ 53) with h | h
  · exact ⟨n, 0, h, by rw [roundedNat_of_lt h, Nat.pow_zero, Nat.mul_one]⟩
  · have hlog := log2_of_le h
    obtain ⟨hlo, hhi⟩ := div_two_pow_bounds (m := n) (by omega)
    have hle : inUnits n (unitOf n) ≤ n / unitOf n + 1 := by
      unfold inUnits
      split <;> omega
    change n / unitOf n < 2 ^ 53 at hhi
    rcases Nat.lt_or_ge (inUnits n (unitOf n)) (2 ^ 53) with hr | hr
    · exact ⟨_, n.log2 - 52, hr, rfl⟩
    · have hcarry : inUnits n (unitOf n) = 2 ^ 53 := by omega
      refine ⟨2 ^ 52, n.log2 - 52 + 1, by decide, ?_⟩
      rw [roundedNat, hcarry, unitOf, ← Nat.pow_add, ← Nat.pow_add]
      congr 1
      omega

/-- A number with at most 53 significant bits is a multiple of the unit, unless it has fewer
bits. -/
theorem unitOf_dvd {n k : ℕ} (hk : Significant k) (h : 2 ^ n.log2 ≤ k) : unitOf n ∣ k := by
  obtain ⟨m, e, hm, rfl⟩ := hk
  have hexp : n.log2 < 53 + e := by
    rw [← Nat.pow_lt_pow_iff_right (a := 2) (by decide), Nat.pow_add]
    exact h.trans_lt (Nat.mul_lt_mul_of_pos_right hm (Nat.two_pow_pos e))
  exact (Nat.pow_dvd_pow 2 (by omega)).trans (Nat.dvd_mul_left _ _)

theorem roundedNat_nearest (n : ℕ) {k : ℕ} (hk : Significant k) :
    (roundedNat n - n : ℤ).natAbs ≤ (k - n : ℤ).natAbs := by
  rcases Nat.lt_or_ge n (2 ^ 53) with h | h
  · rw [roundedNat_of_lt h, Int.sub_self]
    exact Nat.zero_le _
  · have hlog := log2_of_le h
    have hnearest := inUnits_nearest n (unitOf_pos n)
    rcases Nat.lt_or_ge k (2 ^ n.log2) with hsmall | hlarge
    · -- the least number with as many bits is a multiple of the unit, too
      have hfirst := hnearest (2 ^ 52)
      have hpow : 2 ^ 52 * unitOf n = 2 ^ n.log2 := by
        rw [unitOf, ← Nat.pow_add]
        congr 1
        omega
      have hle : 2 ^ n.log2 ≤ n := Nat.log2_self_le (by omega)
      rw [hpow] at hfirst
      rw [roundedNat]
      omega
    · obtain ⟨q, rfl⟩ := unitOf_dvd hk hlarge
      rw [Nat.mul_comm]
      exact hnearest q

/-- The integer `r` is the one that a float has for `n`: the nearest with at most 53 significant
bits, and one with a last bit of zero where two are equally near. -/
structure Nearest (n r : ℤ) : Prop where
  significant : Significant r.natAbs
  nearest : ∀ k : ℤ, Significant k.natAbs → (r - n).natAbs ≤ (k - n).natAbs
  even : 2 * (r - n).natAbs = unitOf n.natAbs → 2 * unitOf n.natAbs ∣ r.natAbs

theorem natAbs_rounded (n : ℤ) : (rounded n).natAbs = roundedNat n.natAbs := by
  cases n with
  | ofNat n => rfl
  | negSucc n => exact Int.natAbs_neg _

theorem natAbs_rounded_sub (n : ℤ) :
    (rounded n - n).natAbs = (roundedNat n.natAbs - n.natAbs : ℤ).natAbs := by
  cases n with
  | ofNat n => rfl
  | negSucc n =>
    rw [rounded, Int.natAbs_negSucc, Nat.succ_eq_add_one, Int.negSucc_eq]
    omega

theorem nearest_rounded (n : ℤ) : Nearest n (rounded n) where
  significant := by
    rw [natAbs_rounded]
    exact significant_roundedNat n.natAbs
  nearest k hk := by
    have hnearest := roundedNat_nearest n.natAbs hk
    rw [natAbs_rounded_sub]
    omega
  even h := by
    rw [natAbs_rounded_sub] at h
    rw [natAbs_rounded]
    obtain ⟨hup, hdown, heven⟩ := inUnits_bounds n.natAbs (unitOf_pos n.natAbs)
    have hcount := heven (by rw [roundedNat] at h; omega)
    exact Nat.mul_dvd_mul_right (Nat.dvd_of_mod_eq_zero hcount) _

theorem rounded_of_le {n : ℤ} (h : n.natAbs ≤ 2 ^ 53) : rounded n = n := by
  have hnat {k : ℕ} (hk : k ≤ 2 ^ 53) : roundedNat k = k := by
    rcases hk.lt_or_eq with hlt | rfl
    · exact roundedNat_of_lt hlt
    · decide +kernel
  cases n with
  | ofNat n => exact congrArg Int.ofNat (hnat h)
  | negSucc n =>
    have hn : n + 1 ≤ 2 ^ 53 := h
    rw [rounded, hnat hn]
    rfl

/-! ## The bits behind a significand -/

theorem shiftRight_succ (em : ExtendedMantissa) (k : ℕ) :
    em >>> (k + 1) = (em >>> k).shiftRightOne := rfl

/-- The two bits behind the significand tell whether anything was cut off. -/
theorem lost_shiftRight (m k : ℕ) :
    (((⟨m, false, false⟩ : ExtendedMantissa) >>> k).roundBit ||
      ((⟨m, false, false⟩ : ExtendedMantissa) >>> k).stickyBit) = (m % 2 ^ k != 0) := by
  induction k with
  | zero => simp [HShiftRight.hShiftRight, Nat.repeat, Nat.mod_one]
  | succ k ih =>
    rw [shiftRight_succ, ExtendedMantissa.shiftRightOne, mantissa_shiftRight, ih, Nat.pow_succ,
      Nat.mod_mul]
    have hpos := Nat.two_pow_pos k
    rcases Nat.mod_two_eq_zero_or_one (m / 2 ^ k) with h | h <;> simp [h]

theorem roundedMantissa_eq (q : ℕ) {b s p : ℕ} (hb : b < 2) (hs : s < p) :
    (⟨q, b != 0, s != 0⟩ : ExtendedMantissa).roundedMantissa =
      if 2 * (s + p * b) < p * 2 ∨ 2 * (s + p * b) = p * 2 ∧ q % 2 = 0 then q else q + 1 := by
  obtain rfl | rfl : b = 0 ∨ b = 1 := by omega
  · have hdown : 2 * (s + p * 0) < p * 2 := by omega
    rw [if_pos (.inl hdown)]
    cases s <;> rfl
  · rcases Nat.eq_zero_or_pos s with rfl | hpos
    · have hround : (⟨q, (1 : ℕ) != 0, (0 : ℕ) != 0⟩ : ExtendedMantissa).roundedMantissa =
          q + q % 2 := rfl
      rw [hround]
      split <;> omega
    · have hsticky : (s != 0) = true := bne_iff_ne.2 hpos.ne'
      have hround : (⟨q, (1 : ℕ) != 0, true⟩ : ExtendedMantissa).roundedMantissa = q + 1 := rfl
      rw [hsticky, hround, if_neg (by omega)]

/-- The bits behind the significand round it to the nearest, ties to even. -/
theorem roundedMantissa_shiftRight (m k : ℕ) :
    ((⟨m, false, false⟩ : ExtendedMantissa) >>> k).roundedMantissa = inUnits m (2 ^ k) := by
  cases k with
  | zero =>
    have hunits := inUnits_mul m Nat.one_pos
    rw [Nat.mul_one] at hunits
    rw [Nat.pow_zero, hunits]
    rfl
  | succ k =>
    have hlost := lost_shiftRight m k
    have hlt := Nat.mod_lt m (Nat.two_pow_pos k)
    rw [shiftRight_succ, ExtendedMantissa.shiftRightOne, hlost, mantissa_shiftRight,
      Nat.div_div_eq_div_mul, roundedMantissa_eq _ (Nat.mod_lt _ Nat.two_pos) hlt, inUnits,
      Nat.pow_succ, Nat.mod_mul]

theorem roundedMantissa_of_full {m : ℕ} {e : ℤ} (full : 52 ≤ m.log2) (range : -1022 ≤ m.log2 + e) :
    (shiftToTargetExponent Format.binary64 m e .exact).1.roundedMantissa =
      inUnits m (2 ^ (m.log2 - 52)) := by
  have hshift : (m.log2 + e - 52 - e).toNat = m.log2 - 52 := by omega
  rw [shiftToTargetExponent, shiftToExponent, targetExponent_eq range, hshift]
  exact roundedMantissa_shiftRight m (m.log2 - 52)

/-! ## Floats that hold integers -/

/-- A float is the integer `k`, in normal form. -/
inductive Holds : UnpackedFloat → ℤ → Prop
  | zero (s : Sign) : Holds (.zero s) 0
  | finite (s : Sign) {m k : ℕ} {e : ℤ} (hm : 0 < m) (full : m.log2 = 52) (large : -52 ≤ e)
    (small : e ≤ 971) (value : m * 2 ^ (e + 52).toNat = k * 2 ^ 52) :
    Holds (.finite s m e hm) (s.apply k)

/-- A carry out of the significand leaves a power of two. -/
theorem carried {r : ℕ} (hlo : 2 ^ 52 ≤ r) (hhi : r ≤ 2 ^ 53) :
    r / 2 ^ (r.log2 - 52) * 2 ^ (r.log2 - 52) = r ∧ (r.log2 = 52 ∨ r.log2 = 53) := by
  rcases hhi.lt_or_eq with h | rfl
  · have hlog : r.log2 = 52 := (Nat.log2_eq_iff (by omega)).2 ⟨hlo, h⟩
    simp [hlog]
  · rw [Nat.log2_two_pow]
    exact ⟨rfl, .inr rfl⟩

theorem holds_roundWithAccuracy (s : Sign) {n j : ℕ} (hn : 0 < n) (full : 52 ≤ n.log2 + j)
    (small : n.log2 ≤ 1000) :
    Holds (roundWithAccuracy Format.binary64 s (n * 2 ^ j) (-j) .exact)
      (s.apply (roundedNat n)) := by
  have hlog : (n * 2 ^ j).log2 = n.log2 + j := by rw [← Nat.shiftLeft_eq, log2_shiftLeft hn.ne']
  have hfull : 52 ≤ (n * 2 ^ j).log2 := hlog ▸ full
  have hrange : -1022 ≤ ((n * 2 ^ j).log2 : ℤ) + -j := by omega
  obtain ⟨hmantissa, hexponent⟩ := shift_of_full hfull hrange
  have hr := roundedMantissa_of_full hfull hrange
  obtain ⟨hlo, hhi⟩ := div_two_pow_bounds hfull
  have hvalue := inUnits_shifted full
  rw [roundWithAccuracy]
  generalize shiftToTargetExponent Format.binary64 (n * 2 ^ j) (-j) .exact = first at *
  obtain ⟨em, e⟩ := first
  dsimp only at hmantissa hexponent hr ⊢
  obtain ⟨hge, hle⟩ := roundedMantissa_bounds em
  rw [hr] at hge hle ⊢
  rw [hlog] at hexponent hge hle hlo hhi hmantissa ⊢
  generalize inUnits (n * 2 ^ j) (2 ^ (n.log2 + j - 52)) = r at *
  obtain ⟨hcarried, hbits⟩ := carried (r := r) (by omega) (by omega)
  obtain ⟨hfinal, hlast⟩ := shift_of_full (m := r) (e := e) (by omega) (by omega)
  have hrpos := (div_two_pow_bounds (m := r) (by omega)).1
  have hrlt := (div_two_pow_bounds (m := r) (by omega)).2
  rw [hfinal, hlast, dif_neg (by omega)]
  refine .finite s _ ((Nat.log2_eq_iff (by omega)).2 ⟨hrpos, hrlt⟩) (by omega) (by omega) ?_
  have hshift : (r.log2 + e - 52 + 52).toNat = (r.log2 - 52) + n.log2 := by omega
  rw [hshift, Nat.pow_add, ← Nat.mul_assoc, hcarried, hvalue]

theorem Holds.pack {u : UnpackedFloat} {k : ℤ} (h : Holds u k) :
    Holds (unpack Format.binary64 (pack Format.binary64 u)) k := by
  cases h with
  | zero s => cases s <;> exact .zero _
  | finite s hm full large small value =>
    rw [unpack_pack_of_le s hm full (by omega) small]
    exact .finite s hm full large small value

theorem Holds.neg {u : UnpackedFloat} {k : ℤ} (h : Holds u k) : Holds u.neg (-k) := by
  cases h with
  | zero s => exact .zero (-s)
  | @finite s m k e hm full large small value =>
    have happly : (-s).apply k = -s.apply k := by
      cases s with
      | positive => rfl
      | negative => exact (Int.neg_neg _).symm
    rw [← happly]
    exact .finite (-s) hm full large small value

theorem pos_of_value {m k : ℕ} {i : ℕ} (hm : 0 < m) (value : m * 2 ^ i = k * 2 ^ 52) : 0 < k := by
  rcases Nat.eq_zero_or_pos k with rfl | hk
  · have hpos : 0 < m * 2 ^ i := Nat.mul_pos hm (Nat.two_pow_pos i)
    omega
  · exact hk

theorem apply_ne_zero (s : Sign) {k : ℕ} (hk : 0 < k) : s.apply k ≠ 0 := by
  cases s <;> simp only [Sign.apply] <;> omega

/-- Floats are equal if they are the same integer. -/
theorem Holds.beq_iff {u v : UnpackedFloat} {a b : ℤ} (hu : Holds u a) (hv : Holds v b) :
    u.beq v = true ↔ a = b := by
  cases hu with
  | zero s =>
    cases hv with
    | zero t => exact iff_of_true rfl rfl
    | finite t hn full large small value =>
      refine iff_of_false ?_ (apply_ne_zero t (pos_of_value hn value)).symm
      cases t <;> exact Bool.false_ne_true
  | @finite s m a e hm full large small value =>
    cases hv with
    | zero t =>
      refine iff_of_false ?_ (apply_ne_zero s (pos_of_value hm value))
      cases s <;> exact Bool.false_ne_true
    | @finite t n b k hn full' large' small' value' =>
      rw [beq_finite hm hn]
      constructor
      · rintro ⟨rfl, rfl, rfl⟩
        rw [Nat.eq_of_mul_eq_mul_right (Nat.two_pow_pos 52) (value.symm.trans value')]
      · intro h
        obtain ⟨rfl, rfl⟩ := apply_inj (pos_of_value hm value) (pos_of_value hn value')
          (sub_eq_zero.2 h)
        have hsame := value.trans value'.symm
        rw [← Nat.shiftLeft_eq, ← Nat.shiftLeft_eq] at hsame
        obtain ⟨rfl, hexp⟩ := normal_inj full full' hsame
        exact ⟨rfl, rfl, by omega⟩

/-- Multiplying an integer of at most 53 bits by one leaves it. -/
theorem Holds.mul_one {u : UnpackedFloat} {k : ℕ} (hk : 0 < k) (bits : k < 2 ^ 53)
    (h : Holds u k) :
    Holds (mul Format.binary64 u (.finite .positive (2 ^ 52) (-52) (by decide))) k := by
  generalize hz : (k : ℤ) = z at h
  cases h with
  | zero s => omega
  | @finite s m k' e hm full large small value =>
    have hk' := pos_of_value hm value
    obtain ⟨rfl, rfl⟩ : s = .positive ∧ k' = k := by
      cases s <;> simp only [Sign.apply] at hz <;> simp <;> omega
    have hlog : (e + 52).toNat = k'.log2 := by
      have hlogs := congrArg Nat.log2 value
      rw [← Nat.shiftLeft_eq, ← Nat.shiftLeft_eq, log2_shiftLeft hm.ne', log2_shiftLeft hk'.ne',
        full] at hlogs
      omega
    have hsmall : k'.log2 ≤ 52 := by
      have := (Nat.log2_lt hk'.ne').2 bits
      omega
    have hproduct : m * 2 ^ 52 = k' * 2 ^ (104 - k'.log2) := by
      refine Nat.eq_of_mul_eq_mul_right (Nat.two_pow_pos k'.log2) ?_
      rw [Nat.mul_assoc, Nat.mul_assoc, ← Nat.pow_add, ← Nat.pow_add, Nat.sub_add_cancel (by omega),
        Nat.add_comm 52, Nat.pow_add, ← Nat.mul_assoc, ← hlog, value, Nat.mul_assoc, ← Nat.pow_add]
    have hexp : e + -52 = -((104 - k'.log2 : ℕ) : ℤ) := by omega
    have hround := holds_roundWithAccuracy .positive (j := 104 - k'.log2) hk' (by omega) (by omega)
    rw [roundedNat_of_lt bits, ← hproduct, ← hexp] at hround
    exact hround

theorem holds_normalize {n : ℕ} (hn : 0 < n) (small : n.log2 ≤ 1000) :
    Holds (normalize Format.binary64 n 0 .positive) (roundedNat n) := by
  have hround := holds_roundWithAccuracy .positive (j := (0 - (n.log2 + 0 - 52 : ℤ)).toNat) hn
    (by omega) small
  rw [← Nat.shiftLeft_eq, ← Int.zero_sub] at hround
  rw [UnpackedFloat.normalize, Int.compare_eq_gt.2 (by omega)]
  dsimp only
  rw [Int.toNat_natCast, UnpackedFloat.round, targetExponent_eq (by omega)]
  exact hround

theorem holds_ofScientific {n : ℕ} (hn : 0 < n) (small : n.log2 ≤ 1000) :
    Holds (UnpackedFloat.ofScientific Format.binary64 n 0) (roundedNat n) := by
  have hbits : (2 : Int) ^ Format.binary64.exponentBits = 2048 := rfl
  have hround := holds_roundWithAccuracy .positive (j := 53) hn (by omega) small
  rw [← Nat.shiftLeft_eq, ← Nat.mul_one (n <<< 53)] at hround
  rw [UnpackedFloat.ofScientific, dif_neg hn.ne', if_neg (by decide), if_neg (by omega),
    if_pos (by decide)]
  exact hround

/-- A count is converted to the nearest float. -/
theorem holds_ofNat {n : ℕ} (hn : 0 < n) (small : n.log2 ≤ 1000) :
    Holds (Float.ofNat n).toModel.unpack (roundedNat n) := by
  rcases Nat.lt_or_ge n (2 ^ 53) with h | h
  · have hnormal := holds_normalize hn small
    rw [roundedNat_of_lt h] at hnormal
    rw [unpack_ofNat_of_lt h, roundedNat_of_lt h]
    exact (hnormal.pack.mul_one hn h).pack
  · rw [unpack_ofNat_of_le h]
    exact (holds_ofScientific hn small).pack

theorem Holds.isFinite {u : UnpackedFloat} {k : ℤ} (h : Holds u k) : u.isFinite = true := by
  cases h <;> rfl

theorem holds_nearestFloat {n : ℤ} (small : n.natAbs.log2 ≤ 1000) :
    Holds (Json.nearestFloat n).toModel.unpack (rounded n) := by
  have hholds : Holds (Float.ofInt n).toModel.unpack (rounded n) := by
    cases n with
    | ofNat n =>
      rcases Nat.eq_zero_or_pos n with rfl | hn
      · exact .zero .positive
      · exact holds_ofNat hn small
    | negSucc n =>
      have hneg : (Float.ofInt (.negSucc n)).toModel.unpack = unpack Format.binary64
          (pack Format.binary64 (Float.ofNat (n + 1)).toModel.unpack.neg) := rfl
      rw [hneg]
      exact (holds_ofNat (Nat.succ_pos n) small).neg.pack
  have hfinite : (Float.ofInt n).isFinite = true := hholds.isFinite
  rw [Json.nearestFloat, if_pos hfinite]
  exact hholds

end ModelActions.Distance
