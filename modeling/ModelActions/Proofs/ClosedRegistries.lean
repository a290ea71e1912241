import ModelActions.Proofs.CanonicalFilters
import ModelActions.Proofs.Computation
import ModelActions.Proofs.MemberLaws

/-!
# Closed registries

The relationships of a model are checked against the configurations of all models, before there are
any models. The registry that is read then holds a model for each configuration, so each relationship
leads to one of its models.
-/
namespace ModelActions

theorem exists_of_mapM_of_mem {ε α β : Type} {f : α → Except ε β} {as : List α} {bs : List β}
    (h : as.mapM f = .ok bs) {a : α} (ha : a ∈ as) : ∃ b ∈ bs, f a = .ok b := by
  induction as generalizing bs with
  | nil => cases ha
  | cons a' as ih =>
    rw [List.mapM_cons] at h
    obtain ⟨b', hb', h⟩ := bind_eq_ok.1 h
    obtain ⟨bs', hbs', h⟩ := bind_eq_ok.1 h
    cases h
    rcases List.mem_cons.1 ha with rfl | ha
    · exact ⟨b', List.mem_cons_self, hb'⟩
    · obtain ⟨b, hb, hfa⟩ := ih hbs' ha
      exact ⟨b, List.mem_cons_of_mem b' hb, hfa⟩

@[simp] theorem Relationship.related_ofSpec (name model modelKey relatedKey : String)
    (spec : RelationshipSpec) :
    (ofSpec name model modelKey relatedKey spec).related = spec.model := by
  unfold ofSpec
  split <;> rfl

namespace Registry

/-- The registry holds each model under its own name, and with it all models that its relationships
lead to. Each scope is a tree without empty groups and without leaves that name no attribute. -/
structure Closed (registry : Registry) : Prop where
  filed : ∀ e ∈ registry.models, e.2.name = e.1
  related : ∀ e ∈ registry.models, ∀ r ∈ e.2.relationships,
    ∃ m, registry.models.get? r.2.related = some m
  scopes : ∀ e ∈ registry.models, ∀ s ∈ e.2.scopes, s.2.toFilter.Canonical
  views : ∀ e ∈ registry.models, ∀ view ∈ e.2.views, ∀ s ∈ view.2, s.2.toFilter.Canonical

theorem canonical_of_readScope {model name : String} {written : Json} {g : FilterGroup}
    (h : readScope model name written = .ok g) : g.toFilter.Canonical := by
  obtain ⟨expanded, -, h⟩ := bind_eq_ok.1 h
  cases hcheck : Filter.check expanded with
  | error e =>
    rw [hcheck] at h
    cases h
  | ok g' =>
    rw [hcheck] at h
    cases h
    exact Filter.canonical_of_check hcheck

theorem canonical_of_readScopes {model : String} {written : Members Json} {table : ScopeTable}
    (h : readScopes model written = .ok table) : ∀ s ∈ table, s.2.toFilter.Canonical := by
  intro s hs
  obtain ⟨e, -, he⟩ := exists_of_mem_mapM h hs
  obtain ⟨g, hread, he⟩ := bind_eq_ok.1 he
  cases he
  exact canonical_of_readScope hread

/-- A relationship that was read leads to a model that is configured. -/
theorem has_of_readRelationships {configs : Members ModelConfig} {spec : ModelSpec}
    {config : ModelConfig} {relationships : Members Relationship}
    (h : readRelationships configs spec config = .ok relationships) :
    ∀ r ∈ relationships, r.2.related ∈ configs.keys := by
  intro r hr
  obtain ⟨e, -, he⟩ := exists_of_mem_mapM h hr
  split at he
  · next related hget =>
    cases he
    rw [Relationship.related_ofSpec]
    exact List.mem_map_of_mem (Members.mem_of_get? hget)
  · cases he

/-- What a model that was read has of its specification, and of the configurations of all models. -/
structure ReadFrom (configs : Members ModelConfig) (spec : ModelSpec) (m : Model) : Prop where
  name : m.name = spec.name
  related : ∀ r ∈ m.relationships, r.2.related ∈ configs.keys
  scopes : ∀ s ∈ m.scopes, s.2.toFilter.Canonical
  views : ∀ view ∈ m.views, ∀ s ∈ view.2, s.2.toFilter.Canonical

theorem readFrom_of_readModel {configs : Members ModelConfig} {spec : ModelSpec} {m : Model}
    (h : readModel configs spec = .ok m) : ReadFrom configs spec m := by
  obtain ⟨relationships, hrelationships, h⟩ := bind_eq_ok.1 h
  obtain ⟨scopes, hscopes, h⟩ := bind_eq_ok.1 h
  obtain ⟨views, hviews, h⟩ := bind_eq_ok.1 h
  cases h
  refine ⟨rfl, has_of_readRelationships hrelationships, canonical_of_readScopes hscopes, ?_⟩
  intro view hview
  obtain ⟨e, -, he⟩ := exists_of_mem_mapM hviews hview
  obtain ⟨table, htable, he⟩ := bind_eq_ok.1 he
  cases he
  exact canonical_of_readScopes htable

/-- Whatever is configured is the name of a specification. -/
theorem exists_spec_of_mem_configs {specs : List ModelSpec} {name : String}
    (h : name ∈ (configs specs).keys) : ∃ spec ∈ specs, spec.name = name := by
  obtain ⟨e, he, rfl⟩ := List.mem_map.1 h
  obtain ⟨spec, hspec, rfl⟩ := List.mem_map.1 (Members.mem_of_mem_ofList he)
  exact ⟨spec, hspec, rfl⟩

theorem closed_of_ofSpecs {specs : List ModelSpec} {registry : Registry}
    (loaded : ofSpecs specs = .ok registry) : registry.Closed := by
  obtain ⟨models, hmodels, h⟩ := bind_eq_ok.1 loaded
  cases h
  let held : Members Model := Members.ofList (models.map fun m => (m.name, m))
  have hread : ∀ e ∈ held, e.2.name = e.1 ∧ ∃ spec, ReadFrom (configs specs) spec e.2 := by
    intro e he
    obtain ⟨m, hm, rfl⟩ := List.mem_map.1 (Members.mem_of_mem_ofList he)
    obtain ⟨spec, -, hspec⟩ := exists_of_mem_mapM hmodels hm
    exact ⟨rfl, spec, readFrom_of_readModel hspec⟩
  -- each configured name is that of a specification, and so of a model that was built from it
  have hheld : ∀ name ∈ (configs specs).keys, ∃ m, held.get? name = some m := by
    intro name hname
    obtain ⟨spec, hspec, rfl⟩ := exists_spec_of_mem_configs hname
    obtain ⟨m, hm, hmodel⟩ := exists_of_mapM_of_mem hmodels hspec
    have hkey : spec.name ∈ held.keys := by
      rw [← (readFrom_of_readModel hmodel).name]
      refine (Members.mem_keys_overwrite [] _ m.name).2 (.inr ?_)
      exact List.mem_map_of_mem (List.mem_map_of_mem hm)
    exact Option.isSome_iff_exists.1 ((Members.has_iff_mem_keys held spec.name).2 hkey)
  constructor
  · exact fun e he => (hread e he).1
  · intro e he r hr
    obtain ⟨-, spec, hfrom⟩ := hread e he
    exact hheld _ (hfrom.related r hr)
  · intro e he
    obtain ⟨-, spec, hfrom⟩ := hread e he
    exact hfrom.scopes
  · intro e he
    obtain ⟨-, spec, hfrom⟩ := hread e he
    exact hfrom.views

end Registry
end ModelActions
