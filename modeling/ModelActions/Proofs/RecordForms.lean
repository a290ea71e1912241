import ModelActions.Json.Record

/-!
# Records read back

An object that was written field by field holds under each name what was written there. A field is
read back if what is written under its name is.
-/
namespace ModelActions

namespace Members
variable {α : Type}

/-- Where no key is repeated, what is written over a map comes before what it held. -/
theorem get?_overwrite {patch : Members α} (h : patch.keys.Nodup) (ms : Members α) (key : String) :
    (ms.overwrite patch).get? key = (patch.get? key).or (ms.get? key) := by
  induction patch generalizing ms with
  | nil => rfl
  | cons e patch ih =>
    obtain ⟨hkey, hpatch⟩ := List.nodup_cons.1 h
    refine (ih hpatch (ms.insert e.1 e.2)).trans ?_
    rw [get?_insert, get?_cons]
    by_cases he : e.1 = key
    · subst he
      rw [get?_of_not_mem hkey, if_pos rfl, if_pos rfl]
      rfl
    · rw [if_neg he, if_neg (Ne.symm he)]

/-- The fields that have a value, in ascending order of names. -/
def written (fields : Members (Option α)) : Members α :=
  ofList (fields.filterMap fun e => e.2.map (e.1, ·))

theorem keys_filterMap_sublist (fields : Members (Option α)) :
    List.Sublist (keys (fields.filterMap fun e => e.2.map (e.1, ·))) fields.keys := by
  induction fields with
  | nil => exact .slnil
  | cons e fields ih =>
    obtain ⟨name, _ | value⟩ := e
    · exact ih.cons name
    · exact ih.cons_cons name

theorem get?_written (fields : Members (Option α)) (h : fields.keys.Nodup) (key : String) :
    (written fields).get? key = (fields.get? key).join := by
  refine (get?_overwrite (h.sublist (keys_filterMap_sublist fields)) [] key).trans ?_
  rw [get?_nil, Option.or_none]
  induction fields with
  | nil => rfl
  | cons e fields ih =>
    obtain ⟨hname, hfields⟩ := List.nodup_cons.1 h
    obtain ⟨name, _ | value⟩ := e
    · refine (ih hfields).trans ?_
      rw [get?_cons]
      split
      · next hkey => rw [get?_of_not_mem (hkey ▸ hname)]; rfl
      · rfl
    · rw [get?_cons]
      refine (get?_cons name value _ key).trans ?_
      rw [ih hfields]
      split <;> rfl

section
variable {r : Members Json} {key : String} (read : Json → Option α)

theorem required_eq {j : Json} {a : α} (h : r.get? key = some j) (hread : read j = some a) :
    r.required key read = some a := by
  rw [required, h]
  exact hread

theorem optional_eq {encode : α → Json} {o : Option α} (h : r.get? key = o.map encode)
    (hread : ∀ a ∈ o, (encode a).orNull read = some (some a)) : r.optional key read = some o := by
  rw [optional, h]
  cases o with
  | none => rfl
  | some a => exact hread a rfl

theorem defaulted_eq (default : α) {j : Json} {a : α} (h : r.get? key = some j)
    (hread : read j = some a) : r.defaulted key read default = some a := by
  rw [defaulted, h]
  exact hread

end
end Members

namespace Json
variable {α : Type} (read : Json → Option α) {encode : α → Json}

theorem object_eq (fields : List (String × Option Json)) :
    object fields = .obj (Members.written fields) := rfl

theorem orNull_eq {j : Json} {a : α} (h : read j = some a) (hnull : j.isNull = false) :
    j.orNull read = some (some a) := by
  cases j with
  | null => cases hnull
  | _ => exact congrArg (Option.map some) h

theorem listOf_map (as : List α) (h : ∀ a ∈ as, read (encode a) = some a) :
    listOf read (.arr (as.map encode)) = some as := by
  induction as with
  | nil => rfl
  | cons a as ih =>
    have has := ih fun a' ha' => h a' (List.mem_cons_of_mem a ha')
    simp only [listOf] at has
    simp [listOf, h a List.mem_cons_self, has]

theorem listOf_ofStrings (ss : List String) : listOf string? (ofStrings ss) = some ss :=
  listOf_map string? ss fun _ _ => rfl

/-- A list that is left out when empty is read back, with the empty list as default. -/
theorem defaulted_ofNonempty {r : Members Json} {key : String} {as : List α}
    (h : r.get? key = ofNonempty encode as) (hread : ∀ a ∈ as, read (encode a) = some a) :
    r.defaulted key (listOf read) [] = some as := by
  rw [Members.defaulted, h, ofNonempty]
  cases as with
  | nil => rfl
  | cons a as => exact listOf_map read (a :: as) hread

end Json
end ModelActions
