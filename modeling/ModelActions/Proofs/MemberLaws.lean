import Mathlib.Data.List.Perm.Subperm
import ModelActions.Members

/-!
# Filtered and changed members

How writing members goes together with leaving some out and with changing values. What is written
under names that are left out makes no difference, and values may be changed before or after. Either
keeps the order of the names.
-/
namespace ModelActions.Members
variable {α : Type}

theorem get?_filter (ms : Members α) (kept : String → Bool) {key : String}
    (h : kept key = true) : get? (ms.filter fun e => kept e.1) key = ms.get? key := by
  induction ms with
  | nil => rfl
  | cons e ms ih =>
    rw [List.filter_cons, get?_cons]
    split
    · rw [get?_cons, ih]
    · next hkept =>
      have hne : e.1 ≠ key := by
        rintro rfl
        exact hkept h
      rw [ih, if_neg hne]

/-- What is put under a name that is left out makes no difference. -/
theorem filter_insert (ms : Members α) (left : String × α → Bool) {key : String} {value : α}
    (h : left (key, value) = false) (hms : ∀ old, (key, old) ∈ ms → left (key, old) = false) :
    (ms.insert key value).filter left = ms.filter left := by
  induction ms with
  | nil => simp [insert, h]
  | cons e ms ih =>
    obtain ⟨k, v⟩ := e
    have htail : (insert ms key value).filter left = ms.filter left :=
      ih fun old hold => hms old (List.mem_cons_of_mem _ hold)
    rw [insert]
    split
    · next he =>
      subst he
      simp [h, hms v List.mem_cons_self]
    · split
      · simp [h]
      · simp only [List.filter_cons, htail]

theorem get?_insertNew (ms : Members α) (key other : String) (value : α) :
    (ms.insertNew key value).get? other =
      if other = key then (ms.get? other).or (some value) else ms.get? other := by
  rw [insertNew, has]
  cases hget : ms.get? key with
  | none =>
    rw [if_neg (by simp), get?_insert]
    split
    · next h => rw [h, hget, Option.none_or]
    · rfl
  | some old =>
    rw [if_pos (by simp)]
    split
    · next h => rw [h, hget, Option.some_or]
    · rfl

theorem filter_erase (ms : Members α) {names : List String} {key : String} (h : key ∈ names) :
    (ms.erase key).filter (fun e => e.1 ∉ names) = ms.filter fun e => e.1 ∉ names := by
  induction ms with
  | nil => rfl
  | cons e ms ih => grind [erase]

theorem insert_insert (ms : Members α) (key : String) (value value' : α) :
    (ms.insert key value).insert key value' = ms.insert key value' := by
  induction ms with
  | nil => simp [insert]
  | cons e ms ih => grind [insert]

theorem insert_overwrite (ms : Members α) {patch : Members α} {key : String}
    (h : key ∉ patch.keys) (value : α) :
    (ms.insert key value).overwrite patch = (ms.overwrite patch).insert key value := by
  induction patch generalizing ms with
  | nil => rfl
  | cons e patch ih =>
    obtain ⟨hne, hpatch⟩ : key ≠ e.1 ∧ key ∉ keys patch := by
      simpa [keys] using h
    have hswap := insert_comm ms hne value e.2
    rw [overwrite, List.foldl_cons, hswap]
    exact ih (ms.insert e.1 e.2) hpatch

theorem mem_of_mem_overwrite {ms patch : Members α} {e : String × α}
    (h : e ∈ ms.overwrite patch) : e ∈ patch ∨ e ∈ ms := by
  induction patch generalizing ms with
  | nil => exact .inr h
  | cons first patch ih =>
    rcases ih h with hpatch | hms
    · exact .inl (List.mem_cons_of_mem first hpatch)
    · rcases mem_of_mem_insert hms with rfl | hms
      · exact .inl List.mem_cons_self
      · exact .inr hms

/-- The entries of a map come from the list that it was made of. -/
theorem mem_of_mem_ofList {entries : List (String × α)} {e : String × α}
    (h : e ∈ ofList entries) : e ∈ entries := by
  rcases mem_of_mem_overwrite h with hentries | hnil
  · exact hentries
  · cases hnil

theorem mem_keys_overwrite (ms patch : Members α) (key : String) :
    key ∈ (ms.overwrite patch).keys ↔ key ∈ ms.keys ∨ key ∈ patch.keys := by
  induction patch generalizing ms with
  | nil => simp [overwrite, keys]
  | cons e patch ih =>
    have hfirst : ms.overwrite (e :: patch) = (ms.insert e.1 e.2).overwrite patch := rfl
    have hkeys : keys (e :: patch) = e.1 :: keys patch := rfl
    rw [hfirst, ih, mem_keys_insert, hkeys, List.mem_cons, or_assoc, or_left_comm]

/-- Of what is written, that which is left out makes no difference. -/
theorem filter_overwrite {ms patch : Members α} (left : String × α → Bool)
    (nodup : patch.keys.Nodup) (fresh : ∀ key ∈ patch.keys, key ∉ ms.keys)
    (hms : ∀ e ∈ ms, left e = true) :
    (ms.overwrite patch).filter left = ms.overwrite (patch.filter left) := by
  induction patch generalizing ms with
  | nil => exact List.filter_eq_self.2 hms
  | cons e patch ih =>
    have nodup' : e.1 ∉ keys patch ∧ (keys patch).Nodup := List.nodup_cons.1 nodup
    have fresh' : ∀ key ∈ keys patch, key ∉ ms.keys := fun key hkey =>
      fresh key (List.mem_cons_of_mem _ hkey)
    cases hleft : left e with
    | true =>
      rw [List.filter_cons_of_pos hleft]
      apply ih nodup'.2
      · intro key hkey hinsert
        rcases (mem_keys_insert ms e.1 key e.2).1 hinsert with rfl | hold
        · exact nodup'.1 hkey
        · exact fresh' key hkey hold
      · intro e' he'
        rcases mem_of_mem_insert he' with rfl | hold
        · exact hleft
        · exact hms e' hold
    | false =>
      have hnew : e.1 ∉ (ms.overwrite patch).keys := by
        intro hmem
        rcases (mem_keys_overwrite ms patch e.1).1 hmem with hold | hlater
        · exact fresh e.1 List.mem_cons_self hold
        · exact nodup'.1 hlater
      have hlast : ms.overwrite (e :: patch) = (ms.overwrite patch).insert e.1 e.2 :=
        insert_overwrite ms nodup'.1 e.2
      rw [hlast, filter_insert _ _ hleft, List.filter_cons_of_neg (by simp [hleft])]
      · exact ih nodup'.2 fresh' hms
      · intro old hold
        exact absurd (List.mem_map_of_mem hold) hnew

theorem map_insert (f : String × α → α) (ms : Members α) (key : String) (value : α) :
    (ms.insert key value).map (fun e => (e.1, f e)) =
      insert (ms.map fun e => (e.1, f e)) key (f (key, value)) := by
  induction ms with
  | nil => rfl
  | cons e ms ih => grind [insert]

theorem map_overwrite (f : String × α → α) (ms patch : Members α) :
    (ms.overwrite patch).map (fun e => (e.1, f e)) =
      overwrite (ms.map fun e => (e.1, f e)) (patch.map fun e => (e.1, f e)) := by
  induction patch generalizing ms with
  | nil => rfl
  | cons e patch ih =>
    have hfirst := map_insert f ms e.1 e.2
    rw [overwrite, List.foldl_cons, List.map_cons, overwrite, List.foldl_cons, ← hfirst]
    exact ih (ms.insert e.1 e.2)

theorem Sorted.nodup {ms : Members α} (h : ms.Sorted) : ms.keys.Nodup :=
  List.Pairwise.imp String.ne_of_lt h

theorem Sorted.filter {ms : Members α} (h : ms.Sorted) (left : String × α → Bool) :
    Sorted (ms.filter left) :=
  List.Pairwise.sublist (List.filter_sublist.map _) h

theorem Sorted.insert {ms : Members α} (h : ms.Sorted) (key : String) (value : α) :
    Sorted (ms.insert key value) := by
  induction ms with
  | nil => exact List.pairwise_singleton _ _
  | cons e ms ih =>
    obtain ⟨k, v⟩ := e
    obtain ⟨hfirst, hms⟩ := List.pairwise_cons.1 h
    rw [Members.insert]
    split
    · next heq =>
      subst heq
      exact h
    · next hne =>
      split
      · next hlt =>
        refine List.pairwise_cons.2 ⟨fun other hother => ?_, h⟩
        rcases List.mem_cons.1 hother with rfl | hother
        · exact hlt
        · exact String.lt_trans hlt (hfirst other hother)
      · next hge =>
        have hlt : k < key := by grind
        refine List.pairwise_cons.2 ⟨fun other hother => ?_, ih hms⟩
        rcases (mem_keys_insert ms key other value).1 hother with rfl | hother
        · exact hlt
        · exact hfirst other hother

theorem Sorted.insertNew {ms : Members α} (h : ms.Sorted) (key : String) (value : α) :
    Sorted (ms.insertNew key value) := by
  rw [Members.insertNew]
  split
  · exact h
  · exact h.insert key value

/-- Members with the same names, as many of them, list them alike. -/
theorem Sorted.keys_eq {ms ms' : Members α} (h : ms.Sorted) (h' : ms'.Sorted)
    (hlength : ms.length = ms'.length) (hsub : ∀ key ∈ ms.keys, key ∈ ms'.keys) :
    ms.keys = ms'.keys := by
  have hperm : ms.keys.Perm ms'.keys :=
    (List.subperm_of_subset h.nodup hsub).perm_of_length_le (by simp [keys, hlength])
  exact hperm.eq_of_pairwise (fun a b _ _ hab hba => absurd hba (String.lt_asymm hab)) h h'

theorem get?_of_lt {key : String} {e : String × α} {ms : Members α}
    (h : Sorted (e :: ms)) (hlt : key < e.1) : get? (e :: ms) key = none := by
  apply get?_of_not_mem
  intro hmem
  rcases List.mem_cons.1 hmem with rfl | hmem
  · exact String.lt_irrefl _ hlt
  · exact String.lt_asymm hlt ((List.pairwise_cons.1 h).1 key hmem)

/-- Members are determined by what stands under each name. -/
theorem Sorted.ext {ms ms' : Members α} (h : ms.Sorted) (h' : ms'.Sorted)
    (hget : ∀ key, ms.get? key = ms'.get? key) : ms = ms' := by
  induction ms generalizing ms' with
  | nil =>
    cases ms' with
    | nil => rfl
    | cons e' ms' => simpa [get?] using hget e'.1
  | cons e ms ih =>
    cases ms' with
    | nil => simpa [get?] using hget e.1
    | cons e' ms' =>
      obtain ⟨k, v⟩ := e
      obtain ⟨k', v'⟩ := e'
      have hfirst : get? ((k, v) :: ms) k = some v := by simp [get?_cons]
      have hfirst' : get? ((k', v') :: ms') k' = some v' := by simp [get?_cons]
      -- the names at the front are the least names on either side
      have hname : k = k' := by
        by_contra hne
        obtain hlt | hgt : k < k' ∨ k' < k := by grind
        · rw [hget, get?_of_lt h' hlt] at hfirst
          contradiction
        · rw [← hget, get?_of_lt h hgt] at hfirst'
          contradiction
      subst hname
      rw [hget, hfirst'] at hfirst
      cases hfirst
      obtain ⟨hnew, hms⟩ := List.pairwise_cons.1 h
      obtain ⟨hnew', hms'⟩ := List.pairwise_cons.1 h'
      have hrest : ms = ms' := ih hms hms' fun key => by
        by_cases hkey : k = key
        · subst hkey
          rw [get?_of_not_mem fun hmem => String.lt_irrefl _ (hnew k hmem),
            get?_of_not_mem fun hmem => String.lt_irrefl _ (hnew' k hmem)]
        · simpa [get?_cons, hkey] using hget key
      rw [hrest]

theorem Sorted.overwrite {ms : Members α} (h : ms.Sorted) (patch : Members α) :
    Sorted (ms.overwrite patch) := by
  induction patch generalizing ms with
  | nil => exact h
  | cons e patch ih => exact ih (h.insert e.1 e.2)

end ModelActions.Members
