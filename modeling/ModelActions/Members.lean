/-!
# Members

Finite maps with string keys, held as lists in ascending order of keys. Strings are ordered by code
point, which is also the order of their UTF-8 bytes. The laws of `insert` and `erase` hold of any
list; the order matters only to what a reader of the list sees.
-/
namespace ModelActions

/-- A finite map from names to values, in ascending order of names. -/
abbrev Members (α : Type) := List (String × α)

namespace Members
variable {α β : Type}

def keys (ms : Members α) : List String := ms.map (·.1)

/-- Keys ascend, so none occurs twice. -/
def Sorted (ms : Members α) : Prop := ms.keys.Pairwise (· < ·)

def get? : Members α → String → Option α
  | [], _ => none
  | (k, v) :: ms, key => if k = key then some v else get? ms key

def has (ms : Members α) (key : String) : Bool := (ms.get? key).isSome

/-- Puts a value under a name, replacing the one it had. -/
def insert : Members α → String → α → Members α
  | [], key, value => [(key, value)]
  | (k, v) :: ms, key, value =>
    if k = key then (key, value) :: ms
    else if key < k then (key, value) :: (k, v) :: ms
    else (k, v) :: insert ms key value

/-- Puts a value under a name that has none yet. -/
def insertNew (ms : Members α) (key : String) (value : α) : Members α :=
  if ms.has key then ms else ms.insert key value

def erase : Members α → String → Members α
  | [], _ => []
  | (k, v) :: ms, key => if k = key then erase ms key else (k, v) :: erase ms key

/-- Inserts one after the other, so that the last value of a repeated name stays. -/
def ofList (entries : List (String × α)) : Members α :=
  entries.foldl (fun ms e => ms.insert e.1 e.2) []

/-- Writes the second map over the first. -/
def overwrite (ms patch : Members α) : Members α :=
  patch.foldl (fun ms e => ms.insert e.1 e.2) ms

@[simp] theorem get?_nil (key : String) : get? ([] : Members α) key = none := rfl

theorem get?_cons (k : String) (v : α) (ms : Members α) (key : String) :
    get? ((k, v) :: ms) key = if k = key then some v else get? ms key := rfl

@[simp] theorem get?_insert_self (ms : Members α) (key : String) (value : α) :
    (ms.insert key value).get? key = some value := by
  induction ms with
  | nil => simp [insert, get?]
  | cons e ms ih => grind [insert, get?]

theorem get?_insert_of_ne (ms : Members α) {key other : String} (value : α) (h : other ≠ key) :
    (ms.insert key value).get? other = ms.get? other := by
  induction ms with
  | nil => grind [insert, get?]
  | cons e ms ih => grind [insert, get?]

theorem get?_insert (ms : Members α) (key other : String) (value : α) :
    (ms.insert key value).get? other = if other = key then some value else ms.get? other := by
  split
  · next h => rw [h, get?_insert_self]
  · next h => exact get?_insert_of_ne ms value h

/-- Two names may be put in either order. -/
theorem insert_comm (ms : Members α) {key other : String} (h : key ≠ other) (value value' : α) :
    (ms.insert key value).insert other value' = (ms.insert other value').insert key value := by
  induction ms with
  | nil => grind [insert]
  | cons e ms ih => grind [insert]

/-- A name may be put before or after a smaller one is removed. -/
theorem erase_insert_comm (ms : Members α) {key other : String} (h : other < key) (value : α) :
    (ms.insert key value).erase other = (ms.erase other).insert key value := by
  induction ms with
  | nil => grind [insert, erase]
  | cons e ms ih => grind [insert, erase]

theorem get?_erase (ms : Members α) (key other : String) :
    (ms.erase key).get? other = if other = key then none else ms.get? other := by
  induction ms with
  | nil => simp [erase, get?]
  | cons e ms ih => grind [erase, get?]

theorem has_iff_mem_keys (ms : Members α) (key : String) : ms.has key = true ↔ key ∈ ms.keys := by
  induction ms with
  | nil => simp [has, keys]
  | cons e ms ih => grind [has, keys, get?]

theorem get?_of_not_mem {ms : Members α} {key : String} (h : key ∉ ms.keys) :
    ms.get? key = none := by
  rw [← has_iff_mem_keys, has, Option.not_isSome_iff_eq_none] at h
  exact h

theorem mem_of_get? {ms : Members α} {key : String} {value : α} (h : ms.get? key = some value) :
    (key, value) ∈ ms := by
  induction ms with
  | nil => simp at h
  | cons e ms ih => grind [get?]

theorem mem_of_mem_insert {ms : Members α} {key : String} {value : α} {e : String × α}
    (h : e ∈ ms.insert key value) : e = (key, value) ∨ e ∈ ms := by
  induction ms with
  | nil => grind [insert]
  | cons _ ms ih => grind [insert]

theorem mem_keys_insert (ms : Members α) (key other : String) (value : α) :
    other ∈ (ms.insert key value).keys ↔ other = key ∨ other ∈ ms.keys := by
  rw [← has_iff_mem_keys, ← has_iff_mem_keys, has, get?_insert, has]
  split <;> simp_all

theorem get?_overwrite_of_not_mem (ms : Members α) {patch : Members α} {key : String}
    (h : key ∉ patch.keys) : (ms.overwrite patch).get? key = ms.get? key := by
  induction patch generalizing ms with
  | nil => rfl
  | cons e patch ih =>
    simp only [keys, List.map_cons, List.mem_cons, not_or] at h
    exact (ih (ms.insert e.1 e.2) h.2).trans (get?_insert_of_ne ms e.2 h.1)

theorem mem_of_get?_overwrite (ms : Members α) {patch : Members α} {key : String} {value : α}
    (h : (ms.overwrite patch).get? key = some value) :
    (key, value) ∈ patch ∨ ms.get? key = some value := by
  induction patch generalizing ms with
  | nil => exact .inr h
  | cons e patch ih =>
    rcases ih (ms.insert e.1 e.2) h with h | h
    · exact .inl (List.mem_cons_of_mem _ h)
    · rw [get?_insert] at h
      split at h
      · next he =>
        cases h
        exact .inl (by simp [he])
      · exact .inr h

end Members
end ModelActions
