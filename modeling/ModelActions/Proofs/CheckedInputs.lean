import ModelActions.Input
import ModelActions.Proofs.CanonicalFilters

/-!
# Checked inputs

What the check of an action's input leaves of it. A filter that is required is there afterwards, in
canonical form.
-/
namespace ModelActions
namespace Input
variable {settings : Settings} {action : Action} {members checked : Members Json} {key : String}

/-- Only what is blank means that there is no filter. -/
theorem isBlank_of_expandShorthand {f : Json} (h : Filter.expandShorthand f = .ok .null) :
    isBlank (some f) = true := by
  cases f with
  | null => rfl
  | arr items =>
    rw [Filter.expandShorthand] at h
    split at h
    · next hitems => exact hitems
    · obtain ⟨filled, -, h⟩ := bind_eq_ok.1 h
      cases h
  | obj members =>
    rw [Filter.expandShorthand] at h
    split at h
    · next hmembers => exact hmembers
    · split at h
      · cases h
      · split at h
        · obtain ⟨filled, -, h⟩ := bind_eq_ok.1 h
          cases h
        · cases h
  | _ => cases h

theorem isBlank_of_parse {f : Json} (h : Filter.parse f = .ok none) : isBlank (some f) = true := by
  obtain ⟨expanded, hexpand, h⟩ := bind_eq_ok.1 h
  split at h
  · exact isBlank_of_expandShorthand hexpand
  · obtain ⟨g, -, h⟩ := bind_eq_ok.1 h
    cases h

/-- The filter under a key is absent, or it is written in canonical form, or it is removed because
it means that there is none. -/
theorem canonicalFilter_cases (h : canonicalFilter key members = .ok checked) :
    (members.get? key = none ∧ checked = members) ∨
      (∃ written g, members.get? key = some written ∧ Filter.parse written = .ok (some g) ∧
        checked = members.insert key g.toJson) ∨
      ∃ written, members.get? key = some written ∧ Filter.parse written = .ok none ∧
        checked = members.erase key := by
  unfold canonicalFilter at h
  split at h
  · next hget =>
    cases h
    exact .inl ⟨hget, rfl⟩
  · next written hget =>
    cases hparse : Filter.parse written with
    | error e =>
      rw [hparse] at h
      cases h
    | ok parsed =>
      rw [hparse] at h
      cases parsed with
      | some g =>
        cases h
        exact .inr (.inl ⟨written, g, hget, hparse, rfl⟩)
      | none =>
        cases h
        exact .inr (.inr ⟨written, hget, hparse, rfl⟩)

/-- A filter that is required is read, and written back in canonical form. -/
theorem canonicalFilter_eq_ok (required : require action members key = .ok ())
    (h : canonicalFilter key members = .ok checked) :
    ∃ g, Filter.parse ((members.get? key).getD .null) = .ok (some g) ∧
      checked = members.insert key g.toJson := by
  unfold require at required
  obtain ⟨hget, -⟩ | ⟨written, g, hget, hread, rfl⟩ | ⟨written, hget, hnone, -⟩ :=
    canonicalFilter_cases h
  · rw [hget] at required
    cases required
  · rw [hget]
    exact ⟨g, hread, rfl⟩
  · rw [hget, isBlank_of_parse hnone] at required
    cases required

theorem membersOf_eq_ok {input : Json} :
    membersOf action input = .ok members ↔ input = .obj members := by
  cases input <;> simp [membersOf]

theorem check_update_eq_ok {y : Json} :
    check .update settings (.obj members) = .ok y ↔
      require .update members "conditions" = .ok () ∧
        (∃ e data, members.get? "data" = some (.obj (e :: data))) ∧
        ∃ checked : Members Json,
          canonicalFilter "conditions" members = .ok checked ∧ y = .obj checked := by
  constructor
  · intro h
    obtain ⟨_, hmembers, h⟩ := bind_eq_ok.1 h
    cases hmembers
    obtain ⟨_, hrequire, h⟩ := bind_eq_ok.1 h
    dsimp only at h
    split at h
    · next e data hdata =>
      obtain ⟨_, -, h⟩ := bind_eq_ok.1 h
      obtain ⟨checked, hchecked, h⟩ := bind_eq_ok.1 h
      cases h
      exact ⟨hrequire, ⟨e, data, hdata⟩, checked, hchecked, rfl⟩
    · obtain ⟨_, hblank, -⟩ := bind_eq_ok.1 h
      cases hblank
  · rintro ⟨hrequire, ⟨e, data, hdata⟩, checked, hchecked, rfl⟩
    refine bind_eq_ok.2 ⟨members, rfl, bind_eq_ok.2 ⟨(), hrequire, ?_⟩⟩
    dsimp only
    rw [hdata]
    exact bind_eq_ok.2 ⟨(), rfl, bind_eq_ok.2 ⟨checked, hchecked, rfl⟩⟩

theorem check_delete_eq_ok {y : Json} :
    check .delete settings (.obj members) = .ok y ↔
      require .delete members "conditions" = .ok () ∧ ∃ checked : Members Json,
        canonicalFilter "conditions" members = .ok checked ∧ y = .obj checked := by
  constructor
  · intro h
    obtain ⟨_, hmembers, h⟩ := bind_eq_ok.1 h
    cases hmembers
    obtain ⟨_, hrequire, h⟩ := bind_eq_ok.1 h
    obtain ⟨checked, hchecked, h⟩ := bind_eq_ok.1 h
    cases h
    exact ⟨hrequire, checked, hchecked, rfl⟩
  · rintro ⟨hrequire, checked, hchecked, rfl⟩
    exact bind_eq_ok.2 ⟨members, rfl, bind_eq_ok.2 ⟨(), hrequire,
      bind_eq_ok.2 ⟨checked, hchecked, rfl⟩⟩⟩

theorem check_readOne_eq_ok {y : Json} :
    check .readOne settings (.obj members) = .ok y ↔
      require .readOne members "filters" = .ok () ∧ ∃ checked : Members Json,
        canonicalFilter "filters" members = .ok checked ∧
        checkExpand settings checked = .ok () ∧ y = .obj checked := by
  constructor
  · intro h
    obtain ⟨_, hmembers, h⟩ := bind_eq_ok.1 h
    cases hmembers
    obtain ⟨_, hrequire, h⟩ := bind_eq_ok.1 h
    obtain ⟨checked, hchecked, h⟩ := bind_eq_ok.1 h
    obtain ⟨_, hexpand, h⟩ := bind_eq_ok.1 h
    cases h
    exact ⟨hrequire, checked, hchecked, hexpand, rfl⟩
  · rintro ⟨hrequire, checked, hchecked, hexpand, rfl⟩
    exact bind_eq_ok.2 ⟨members, rfl, bind_eq_ok.2 ⟨(), hrequire,
      bind_eq_ok.2 ⟨checked, hchecked, bind_eq_ok.2 ⟨(), hexpand, rfl⟩⟩⟩⟩

/-- The input of reading one row, once it was checked: its filter is in canonical form. -/
theorem filters_of_check {f y : Json}
    (h : check .readOne settings (.obj [("filters", f)]) = .ok y) :
    ∃ g, Filter.parse f = .ok (some g) ∧ y = .obj [("filters", g.toJson)] := by
  obtain ⟨hrequire, checked, hchecked, -, rfl⟩ := check_readOne_eq_ok.1 h
  obtain ⟨g, hread, rfl⟩ := canonicalFilter_eq_ok hrequire hchecked
  exact ⟨g, hread, rfl⟩

/-- The input of an update, once it was checked: its conditions are in canonical form. -/
theorem update_of_check {input y : Json} (h : check .update settings input = .ok y) :
    ∃ data g, input.get? "data" = some (.obj data) ∧
      Filter.parse ((input.get? "conditions").getD .null) = .ok (some g) ∧
      y.get? "data" = some (.obj data) ∧ y.get? "conditions" = some g.toJson := by
  obtain ⟨members, hmembers, -⟩ := bind_eq_ok.1 h
  rw [membersOf_eq_ok] at hmembers
  subst hmembers
  obtain ⟨hrequire, ⟨e, data, hdata⟩, checked, hchecked, rfl⟩ := check_update_eq_ok.1 h
  obtain ⟨g, hread, rfl⟩ := canonicalFilter_eq_ok hrequire hchecked
  refine ⟨_, g, hdata, hread, ?_, Members.get?_insert_self members "conditions" _⟩
  exact (Members.get?_insert_of_ne members _ (by decide)).trans hdata

end Input
end ModelActions
