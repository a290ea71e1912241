import ModelActions.Proofs.LinkedRows
import ModelActions.Proofs.RoundedIntegers

/-!
# Integer keys

Integers are loosely equal if they round to the same float. Where no two of some keys do, they are
told apart wherever keys are compared: distinct keys lose repeats only, a condition on a key finds
the rows with this key, and a hop of an expansion attaches the rows with the key of the row.
-/
namespace ModelActions
open Distance (rounded Nearest)

/-- The integers that a reader of JSON keeps as they are. -/
def Json.integers : Set ℤ := Set.Ico (-2 ^ 63) (2 ^ 64)

namespace Json

theorem looseEq_int_iff {a b : ℤ} (ha : a ∈ integers) (hb : b ∈ integers) :
    (int a).looseEq (.int b) = true ↔ rounded a = rounded b := by
  have hlog {n : ℤ} (hn : n ∈ integers) : n.natAbs.log2 ≤ 1000 := by
    obtain ⟨hlo, hhi⟩ := hn
    rcases Nat.eq_zero_or_pos n.natAbs with h | h
    · rw [h]
      decide
    · have hlt : n.natAbs < 2 ^ 65 := by omega
      have := (Nat.log2_lt h.ne').2 hlt
      omega
  rw [looseEq_eq rfl rfl]
  exact (Distance.holds_nearestFloat (hlog ha)).beq_iff (Distance.holds_nearestFloat (hlog hb))

end Json

section
variable {K : Set ℤ} (kept : K ⊆ Json.integers) (apart : K.InjOn rounded)
include kept apart

namespace Json

theorem looseEq_int_iff_eq {a b : ℤ} (ha : a ∈ K) (hb : b ∈ K) :
    (int a).looseEq (.int b) = true ↔ a = b := by
  rw [looseEq_int_iff (kept ha) (kept hb)]
  exact apart.eq_iff ha hb

theorem any_looseEq_int {ns : List ℤ} {n : ℤ} (hns : ∀ k ∈ ns, k ∈ K) (hn : n ∈ K) :
    ((ns.map int).any fun o => o.looseEq (int n)) = true ↔ n ∈ ns := by
  simp only [List.any_map, List.any_eq_true, Function.comp_apply]
  constructor
  · rintro ⟨k, hk, he⟩
    rwa [← (looseEq_int_iff_eq kept apart (hns k hk) hn).1 he]
  · exact fun h => ⟨n, h, looseEq_refl _⟩

theorem addDistinct_int {seen : List ℤ} {n : ℤ} (hseen : ∀ k ∈ seen, k ∈ K) (hn : n ∈ K) :
    addDistinct (seen.map .int) (.int n) = (if n ∈ seen then seen else seen ++ [n]).map .int := by
  have hany := any_looseEq_int kept apart hseen hn
  unfold addDistinct
  by_cases h : n ∈ seen
  · rw [if_pos h, hany.2 h]
    rfl
  · rw [if_neg h, Bool.eq_false_iff.2 fun he => h (hany.1 he), List.map_append]
    rfl

theorem foldl_addDistinct_int {ns seen : List ℤ} (hns : ∀ n ∈ ns, n ∈ K)
    (hseen : ∀ k ∈ seen, k ∈ K) :
    (ns.map .int).foldl addDistinct (seen.map .int) =
      (seen ++ (ns.filter (· ∉ seen)).eraseDups).map .int := by
  induction ns generalizing seen with
  | nil => simp
  | cons n ns ih =>
    obtain ⟨hn, hns⟩ := List.forall_mem_cons.1 hns
    rw [List.map_cons, List.foldl_cons, addDistinct_int kept apart hseen hn]
    by_cases h : n ∈ seen
    · rw [if_pos h, ih hns hseen, List.filter_cons_of_neg (by simpa using h)]
    · have hseen' : ∀ k ∈ seen ++ [n], k ∈ K := by
        intro k hk
        rcases List.mem_append.1 hk with hk | hk
        · exact hseen k hk
        · exact List.mem_singleton.1 hk ▸ hn
      have hrest : ns.filter (· ∉ seen ++ [n]) =
          (ns.filter (· ∉ seen)).filter fun k => !k == n := by
        rw [List.filter_filter]
        refine List.filter_congr fun k _ => ?_
        simp [and_comm, beq_eq_decide]
      rw [if_neg h, ih hns hseen', List.filter_cons_of_pos (by simpa using h),
        List.eraseDups_cons, ← hrest, List.append_assoc]
      rfl

/-- Distinct values lose repeats only, and keep the first of equal keys. -/
theorem distinct_int {ns : List ℤ} (hns : ∀ n ∈ ns, n ∈ K) :
    distinct (ns.map .int) = ns.eraseDups.map .int := by
  have hfold := foldl_addDistinct_int kept apart hns (List.forall_mem_nil _)
  have hall : ns.filter (· ∉ []) = ns := List.filter_eq_self.2 (by simp)
  rwa [hall] at hfold

end Json

section
variable {path : String} {row : Json} {k : ℤ} (value : row.lookup path = some (.int k)) (hk : k ∈ K)
include value hk

theorem Condition.holds_eq_int_iff {n : ℤ} (hn : n ∈ K) :
    (Condition.mk path .eq (.int n)).holds row = true ↔ k = n := by
  rw [Condition.holds, value]
  exact Json.looseEq_int_iff_eq kept apart hk hn

theorem Condition.holds_in_int_iff {ns : List ℤ} (hns : ∀ n ∈ ns, n ∈ K) :
    (Condition.mk path .in (.arr (ns.map .int))).holds row = true ↔ k ∈ ns := by
  have hholds : (Condition.mk path .in (.arr (ns.map .int))).holds row =
      (ns.map .int).any fun o => (Json.int k).looseEq o := by
    rw [Condition.holds, value]
    rfl
  simp only [hholds, Json.looseEq_comm (.int k)]
  exact Json.any_looseEq_int kept apart hns hk

end

/-- Of the rows that a hop finds those are attached to a row that have its key. -/
theorem Expansion.attachment_int {r : Relationship} {related : List Json} {key : Json → ℤ}
    (keys : ∀ x ∈ related, x.get? r.target = some (.int (key x)) ∧ key x ∈ K) {row : Json} {n : ℤ}
    (own : row.get? r.source = some (.int n)) (hn : n ∈ K) :
    attachment r related row = r.joined (related.filter fun x => key x = n) := by
  rw [attachment_eq_joined]
  congr 1
  refine List.filter_congr fun x hx => ?_
  obtain ⟨htarget, hx⟩ := keys x hx
  have hlinks : r.links row x = (Json.int (key x)).looseEq (.int n) := by
    rw [Relationship.links, own, htarget]
    rfl
  rw [hlinks, Bool.eq_iff_iff, Json.looseEq_int_iff_eq kept apart hx hn, decide_eq_true_iff]

end

/-- Integers are loosely equal if the nearest floats are the same, so those up to `2^53` only if they
are equal. Keys of which no two have the same nearest float are told apart by distinct values, by
conditions and by expansion. -/
theorem integers_told_apart {K : Set ℤ} (kept : K ⊆ Json.integers) (apart : K.InjOn rounded) :
    (∀ n, Nearest n (rounded n) ∧ (n.natAbs ≤ 2 ^ 53 → rounded n = n)) ∧
    (∀ a ∈ Json.integers, ∀ b ∈ Json.integers,
      ((Json.int a).looseEq (.int b) = true ↔ rounded a = rounded b)) ∧
    (∀ a ∈ K, ∀ b ∈ K, ((Json.int a).looseEq (.int b) = true ↔ a = b)) ∧
    (∀ ns : List ℤ, (∀ n ∈ ns, n ∈ K) →
      Json.distinct (ns.map .int) = ns.eraseDups.map .int) ∧
    (∀ path row, ∀ k ∈ K, row.lookup path = some (.int k) →
      (∀ n ∈ K, ((Condition.mk path .eq (.int n)).holds row = true ↔ k = n)) ∧
      ∀ ns : List ℤ, (∀ n ∈ ns, n ∈ K) →
        ((Condition.mk path .in (.arr (ns.map .int))).holds row = true ↔ k ∈ ns)) ∧
    ∀ (r : Relationship) (related : List Json) (key : Json → ℤ) (row : Json), ∀ n ∈ K,
      (∀ x ∈ related, x.get? r.target = some (.int (key x)) ∧ key x ∈ K) →
      row.get? r.source = some (.int n) →
        Expansion.attachment r related row = r.joined (related.filter fun x => key x = n) :=
  ⟨fun n => ⟨Distance.nearest_rounded n, Distance.rounded_of_le⟩,
    fun _ ha _ hb => Json.looseEq_int_iff ha hb,
    fun _ ha _ hb => Json.looseEq_int_iff_eq kept apart ha hb,
    fun _ hns => Json.distinct_int kept apart hns,
    fun _ _ _ hk value => ⟨fun _ hn => Condition.holds_eq_int_iff kept apart value hk hn,
      fun _ hns => Condition.holds_in_int_iff kept apart value hk hns⟩,
    fun _ _ _ _ _ hn keys own => Expansion.attachment_int kept apart keys own hn⟩

namespace Seats

def seat (id : ℤ) : Json := .obj [("id", .int id)]

/-- The number of a seat. -/
def number (seat : Json) : ℤ :=
  match seat.get? "id" with
  | some (.int n) => n
  | _ => 0

def booking (seat : ℤ) : Json := .obj [("seat_id", .int seat)]

/-- The seat of a booking. -/
def booked : Relationship where
  kind := .belongsTo
  name := "seat"
  model := "booking"
  related := "seat"
  source := "seat_id"
  target := "id"

def window : ℤ := 2 ^ 53

def aisle : ℤ := 2 ^ 53 + 1

/-- Two neighbours have the same nearest float. One of them is lost among distinct keys, is found
when the other is asked for, and is attached in its place. -/
theorem neighbours_confused :
    window ∈ Json.integers ∧ aisle ∈ Json.integers ∧ window ≠ aisle ∧
      (Json.int window).looseEq (.int aisle) = true ∧
      Json.distinct [.int window, .int aisle] = [.int window] ∧
      (Condition.mk "id" .eq (.int window)).holds (seat aisle) = true ∧
      Expansion.attachment booked [seat aisle] (booking window) = seat aisle := by
  have hequal : (Json.int window).looseEq (.int aisle) = true := by decide +kernel
  have hequal' : (Json.int aisle).looseEq (.int window) = true := by decide +kernel
  have hwindow : window ∈ Json.integers := by
    unfold Json.integers window
    constructor <;> omega
  have haisle : aisle ∈ Json.integers := by
    unfold Json.integers aisle
    constructor <;> omega
  refine ⟨hwindow, haisle, ?_, hequal, ?_, ?_, ?_⟩
  · unfold window aisle
    omega
  · simp [Json.distinct, Json.addDistinct, Json.isNull, hequal]
  · decide +kernel
  · have hbelongs : Expansion.belongs booked (.int window) (seat aisle) = true := by
      simp [Expansion.belongs, booked, seat, Json.get?, Members.get?, Json.isNull, hequal']
    have hfirst : Expansion.attachment booked [seat aisle] (booking window) =
        ([seat aisle].find? (Expansion.belongs booked (.int window))).getD .null := rfl
    rw [hfirst, List.find?_cons_of_pos hbelongs]
    rfl

/-- Numbers of seats that are told apart. -/
def numbers : Set ℤ := fun n => n.natAbs ≤ 2 ^ 53

theorem numbers_told_apart :
    numbers ⊆ Json.integers ∧ numbers.InjOn rounded ∧
      (∀ n ∈ [window, window - 1, window], n ∈ numbers) ∧
      Json.distinct ([window, window - 1, window].map .int) = [.int window, .int (window - 1)] ∧
      Expansion.attachment booked [seat window, seat (window - 1)] (booking (window - 1)) =
        seat (window - 1) := by
  have hkept : numbers ⊆ Json.integers := by
    intro n hn
    change n.natAbs ≤ 2 ^ 53 at hn
    exact ⟨by omega, by omega⟩
  have hapart : numbers.InjOn rounded := by
    intro a ha b hb h
    rwa [Distance.rounded_of_le ha, Distance.rounded_of_le hb] at h
  obtain ⟨-, -, -, hdistinct, -, hattachment⟩ := integers_told_apart hkept hapart
  have hwindow : window ∈ numbers := by
    change window.natAbs ≤ 2 ^ 53
    decide
  have hbefore : window - 1 ∈ numbers := by
    change (window - 1).natAbs ≤ 2 ^ 53
    decide
  have hnumbers : ∀ n ∈ [window, window - 1, window], n ∈ numbers := by
    simp only [List.forall_mem_cons]
    exact ⟨hwindow, hbefore, hwindow, nofun⟩
  have hrows : ∀ x ∈ [seat window, seat (window - 1)],
      x.get? booked.target = some (.int (number x)) ∧ number x ∈ numbers := by
    simp only [List.forall_mem_cons]
    exact ⟨⟨rfl, hwindow⟩, ⟨rfl, hbefore⟩, nofun⟩
  have hattached := hattachment booked _ number (booking (window - 1)) _ hbefore hrows rfl
  have hfiltered : [seat window, seat (window - 1)].filter (fun x => number x = window - 1) =
      [seat (window - 1)] := by
    have hother : number (seat window) ≠ window - 1 := by
      change window ≠ window - 1
      omega
    rw [List.filter_cons_of_neg (by simpa using hother), List.filter_cons_of_pos (by rfl)]
    rfl
  rw [hfiltered] at hattached
  exact ⟨hkept, hapart, hnumbers, hdistinct _ hnumbers, hattached⟩

end Seats
end ModelActions
