import ModelActions.Proofs.ClosedRegistries
import ModelActions.Scope

/-!
# Canonical scopes

The scopes of a registry were checked when it was read. A reference to them, which prefixes and
joins them, is canonical again, and so is a filter that is restricted to live rows.
-/
namespace ModelActions

namespace Filter

mutual
instance instDecidableCanonical : (n : Filter) → Decidable n.Canonical
  | .condition c => inferInstanceAs (Decidable (c.path ≠ ""))
  | .group _ children =>
    have := instDecidableCanonicalAll children
    decidable_of_iff (children.isEmpty = false ∧ CanonicalAll children)
      (by simp [Canonical, List.isEmpty_eq_false_iff])

instance instDecidableCanonicalAll : (ns : List Filter) → Decidable (CanonicalAll ns)
  | [] => .isTrue trivial
  | n :: ns =>
    have := instDecidableCanonical n
    have := instDecidableCanonicalAll ns
    inferInstanceAs (Decidable (n.Canonical ∧ CanonicalAll ns))
end

mutual
theorem Canonical.mapAttributes {f : String → String} (hf : ∀ path, f path ≠ "") {n : Filter}
    (h : n.Canonical) : (n.mapAttributes f).Canonical := by
  match n with
  | .condition c => exact hf c.path
  | .group op children =>
    refine ⟨?_, CanonicalAll.mapAttributes hf h.2⟩
    rw [mapAttributesAll_eq]
    simpa using h.1

theorem CanonicalAll.mapAttributes {f : String → String} (hf : ∀ path, f path ≠ "")
    {ns : List Filter} (h : CanonicalAll ns) : CanonicalAll (mapAttributesAll f ns) := by
  match ns with
  | [] => trivial
  | n :: ns => exact ⟨Canonical.mapAttributes hf h.1, CanonicalAll.mapAttributes hf h.2⟩
end

end Filter

namespace FilterGroup

theorem canonical_conjoin {f f' : Option FilterGroup} (h : ∀ g ∈ f, g.toFilter.Canonical)
    (h' : ∀ g ∈ f', g.toFilter.Canonical) : ∀ g ∈ conjoin f f', g.toFilter.Canonical := by
  intro g hg
  match f, f' with
  | some l, some r =>
    cases hg
    exact ⟨List.cons_ne_nil _ _, h l rfl, h' r rfl, trivial⟩
  | some l, none => exact h g hg
  | none, some r => exact h' g hg
  | none, none => cases hg

theorem canonical_leaf {path : String} (h : path ≠ "") (op : Comparator) (value : Json) :
    (leaf path op value).toFilter.Canonical := ⟨List.cons_ne_nil _ _, h, trivial⟩

end FilterGroup

theorem canonical_liveRows : liveRows.toFilter.Canonical :=
  FilterGroup.canonical_leaf (by decide) _ _

namespace Model

theorem canonical_guardGroup (m : Model) {g : FilterGroup} (h : g.toFilter.Canonical) :
    (m.guardGroup g).toFilter.Canonical := by
  unfold guardGroup
  split
  · exact ⟨List.cons_ne_nil _ _, h, canonical_liveRows, trivial⟩
  · exact h

theorem canonical_guard (m : Model) {f : Option FilterGroup} (h : ∀ g ∈ f, g.toFilter.Canonical) :
    ∀ g ∈ m.guard f, g.toFilter.Canonical := by
  intro g hg
  cases f with
  | some g' =>
    cases hg
    exact m.canonical_guardGroup (h g' rfl)
  | none =>
    rw [guard] at hg
    split at hg
    · cases hg
      exact canonical_liveRows
    · cases hg

end Model

theorem Filter.canonical_of_parse {written : Json} {g : FilterGroup}
    (h : parse written = .ok (some g)) : g.toFilter.Canonical := by
  obtain ⟨expanded, -, hcheck⟩ := parse_eq_ok_some.1 h
  exact canonical_of_check hcheck

namespace Registry

/-- The scopes of the models and of their views are canonical. -/
structure CanonicalScopes (registry : Registry) : Prop where
  scopes : ∀ {name m s g}, registry.models.get? name = some m → m.scopes.get? s = some g →
    g.toFilter.Canonical
  views : ∀ {name m v table s g}, registry.models.get? name = some m →
    m.views.get? v = some table → table.get? s = some g → g.toFilter.Canonical

theorem canonicalScopes_of_ofSpecs {specs : List ModelSpec} {registry : Registry}
    (loaded : Registry.ofSpecs specs = .ok registry) : registry.CanonicalScopes := by
  have closed := closed_of_ofSpecs loaded
  constructor
  · intro name m s g hm hg
    exact closed.scopes _ (Members.mem_of_get? hm) _ (Members.mem_of_get? hg)
  · intro name m v table s g hm hv hg
    exact closed.views _ (Members.mem_of_get? hm) _ (Members.mem_of_get? hv) _
      (Members.mem_of_get? hg)

end Registry

namespace Scope
variable {registry : Registry} {view : Option ScopeTable} {m : Model}

/-- The scopes of a table are canonical. -/
def CanonicalTable (table : ScopeTable) : Prop :=
  ∀ {s g}, table.get? s = some g → g.toFilter.Canonical

theorem canonical_of_named (canonical : registry.CanonicalScopes)
    (hview : ∀ table ∈ view, CanonicalTable table) {name : String}
    (hm : registry.models.get? name = some m) {path : List String} {g : FilterGroup}
    (h : named registry view m path = .ok g) : g.toFilter.Canonical := by
  induction path generalizing view name m g with
  | nil => cases h
  | cons hop path ih =>
    cases path with
    | nil =>
      rw [named] at h
      split at h
      · next found =>
        cases h
        rcases Option.or_eq_some_iff.1 found with hs | ⟨-, ht⟩
        · exact canonical.scopes hm hs
        · obtain ⟨table, htable, ht⟩ := Option.bind_eq_some_iff.1 ht
          exact hview table htable ht
      · cases h
    | cons next rest =>
      obtain ⟨r, -, h⟩ := bind_eq_ok.1 h
      obtain ⟨related, hrel, h⟩ := bind_eq_ok.1 h
      obtain ⟨g', hg', h⟩ := bind_eq_ok.1 h
      cases h
      have hview : ∀ table ∈ (none : Option ScopeTable), CanonicalTable table :=
        fun _ h => nomatch h
      exact (ih hview (Registry.get_eq_ok.1 hrel) hg').mapAttributes fun path => by simp

mutual
/-- References are canonical if what they name is. -/
theorem canonical_of_resolve
    (hnamed : ∀ {path g}, named registry view m path = .ok g → g.toFilter.Canonical)
    {reference : Json} {g : FilterGroup} (h : resolve registry m view reference = .ok g) :
    g.toFilter.Canonical := by
  match reference with
  | .str path =>
    rw [resolve] at h
    exact hnamed h
  | .arr items =>
    rw [resolve] at h
    split at h
    · cases h
    · next hitems =>
      obtain ⟨gs, hgs, h⟩ := bind_eq_ok.1 h
      cases h
      exact canonical_of_resolveAll hnamed (by simpa using hitems) hgs
  | .obj members =>
    rw [resolve] at h
    split at h
    · cases h
    · obtain ⟨gs, hgs, h⟩ := bind_eq_ok.1 h
      cases h
      exact canonical_of_resolveIn hnamed hgs
  | .null | .bool _ | .int _ | .float _ _ => cases h

theorem canonical_of_resolveIn
    (hnamed : ∀ {path g}, named registry view m path = .ok g → g.toFilter.Canonical)
    {members : List (String × Json)} {gs : List Filter}
    (h : resolveIn registry m view members = .ok gs) : gs ≠ [] ∧ Filter.CanonicalAll gs := by
  match members with
  | [] => cases h
  | (key, value) :: members =>
    rw [resolveIn] at h
    split at h
    · exact canonical_of_resolveList hnamed h
    · exact canonical_of_resolveIn hnamed h

theorem canonical_of_resolveList
    (hnamed : ∀ {path g}, named registry view m path = .ok g → g.toFilter.Canonical)
    {value : Json} {gs : List Filter} (h : resolveList registry m view value = .ok gs) :
    gs ≠ [] ∧ Filter.CanonicalAll gs := by
  match value with
  | .arr items =>
    rw [resolveList] at h
    split at h
    · cases h
    · next hitems => exact canonical_of_resolveAll hnamed (by simpa using hitems) h
  | .null | .bool _ | .int _ | .float _ _ | .str _ | .obj _ => cases h

theorem canonical_of_resolveAll
    (hnamed : ∀ {path g}, named registry view m path = .ok g → g.toFilter.Canonical)
    {items : List Json} (hitems : items ≠ []) {gs : List Filter}
    (h : resolveAll registry m view items = .ok gs) : gs ≠ [] ∧ Filter.CanonicalAll gs := by
  match items with
  | [] => exact absurd rfl hitems
  | j :: js =>
    rw [resolveAll] at h
    obtain ⟨g, hg, h⟩ := bind_eq_ok.1 h
    obtain ⟨gs', hgs', h⟩ := bind_eq_ok.1 h
    cases h
    refine ⟨List.cons_ne_nil _ _, canonical_of_resolve hnamed hg, ?_⟩
    by_cases hjs : js = []
    · subst hjs
      cases hgs'
      trivial
    · exact (canonical_of_resolveAll hnamed hjs hgs').2
end

end Scope
end ModelActions
