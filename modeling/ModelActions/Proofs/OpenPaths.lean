import ModelActions.Proofs.CanonicalScopes
import ModelActions.Proofs.GuardedOperations

/-!
# Paths that end with a point

The last segment of a path such as `author.` is empty. A check of expand paths turns such a path
down, that of filters does not: pushed down, it asks for the related rows whose attribute without a
name has some value. All other operations that push-down sends have canonical filters.
-/
namespace ModelActions

namespace Path

/-- The path ends with a point. -/
def EndsOpen (path : String) : Prop := path.toList.getLast? = some '.'

instance (path : String) : Decidable (EndsOpen path) :=
  inferInstanceAs (Decidable (path.toList.getLast? = some '.'))

theorem getLast?_of_segmentChars {cs : List Char} (hne : cs ≠ [])
    (h : (segmentChars cs).getLast? = some []) : cs.getLast? = some '.' := by
  induction cs with
  | nil => exact absurd rfl hne
  | cons c cs ih =>
    by_cases hcs : cs = []
    · subst hcs
      by_cases hc : c = '.'
      · rw [hc]
        rfl
      · simp [segmentChars, hc] at h
    · rw [List.getLast?_cons_of_ne_nil hcs]
      refine ih hcs ?_
      by_cases hc : c = '.'
      · rwa [segmentChars, if_pos hc, List.getLast?_cons_of_ne_nil (segmentChars_ne_nil cs)] at h
      · rw [segmentChars, if_neg hc] at h
        cases hs : segmentChars cs with
        | nil => exact absurd hs (segmentChars_ne_nil cs)
        | cons s ss =>
          rw [hs] at h
          cases ss with
          | nil => simp at h
          | cons t ss => simpa using h

/-- The last segment is empty only if the path is, or ends with a point. -/
theorem endsOpen_of_segments {path : String} (hne : path ≠ "")
    (h : (segments path).getLast? = some "") : EndsOpen path := by
  refine getLast?_of_segmentChars (by simpa using hne) ?_
  simpa [segments] using h

theorem segments_eq_empty_iff {path : String} : segments path = [""] ↔ path = "" := by
  constructor
  · intro h
    rw [← ofSegments_segments path, h]
    rfl
  · rintro rfl
    rfl

theorem ofSegments_ne_empty (hop next : String) (rest : List String) :
    ofSegments (hop :: next :: rest) ≠ "" := by
  simp [ofSegments, joinChars]

end Path

/-- Some leaf of a filter has a path that ends with a point. -/
def FilterGroup.OpenEnded (g : FilterGroup) : Prop := ∃ c ∈ g.leaves, Path.EndsOpen c.path

namespace Operation

/-- The filter or the conditions of an operation are canonical. -/
def Canonical : Operation → Prop
  | .insert _ => True
  | .update op => op.conditions.toFilter.Canonical
  | .delete op => op.conditions.toFilter.Canonical
  | .select op => ∀ g ∈ op.filters, g.toFilter.Canonical

instance : DecidablePred Canonical
  | .insert _ => .isTrue trivial
  | .update op => inferInstanceAs (Decidable op.conditions.toFilter.Canonical)
  | .delete op => inferInstanceAs (Decidable op.conditions.toFilter.Canonical)
  | .select op => inferInstanceAs (Decidable (∀ g ∈ op.filters, g.toFilter.Canonical))

/-- Asks for keys of the related rows whose attribute without a name has some value. -/
def Dangling (registry : Registry) (op : Operation) : Prop :=
  ∃ name related r comparator value, registry.models.get? name = some related ∧
    op = .select (Pushdown.keySelect related r ⟨"", comparator, value⟩)

/-- An operation is canonical, or it is a dangling one and there is a reason for that. -/
def CanonicalUnless (registry : Registry) (reason : Prop) (op : Operation) : Prop :=
  op.Canonical ∨ op.Dangling registry ∧ reason

theorem CanonicalUnless.mono {registry : Registry} {reason reason' : Prop} {op : Operation}
    (h : op.CanonicalUnless registry reason) (hreason : reason → reason') :
    op.CanonicalUnless registry reason' :=
  h.imp id fun ⟨hop, hr⟩ => ⟨hop, hreason hr⟩

end Operation

/-- The columns that relationships are matched by, and the primary keys, have names. -/
structure Registry.NamedKeys (registry : Registry) : Prop where
  source : ∀ {name m hop r}, registry.models.get? name = some m →
    m.relationships.get? hop = some r → r.source ≠ ""
  target : ∀ {name m hop r}, registry.models.get? name = some m →
    m.relationships.get? hop = some r → r.target ≠ ""
  primaryKey : ∀ {name m}, registry.models.get? name = some m → m.primaryKey ≠ ""

namespace Pushdown
open Act (Sends)
open Operation (CanonicalUnless)
variable {σ : Type} (e : Engine σ) {reason : Prop} {name : String} {m : Model}

theorem canonical_keySelect (related : Model) (r : Relationship) {leaf : Condition}
    (h : leaf.path ≠ "") : (Operation.select (keySelect related r leaf)).Canonical := by
  refine related.canonical_guard (f := some (.and [.condition leaf])) fun g hg => ?_
  obtain rfl := Option.some.inj hg
  exact FilterGroup.canonical_leaf h leaf.op leaf.value

/-- A subquery dangles only if the path ends with a point. -/
theorem pushPath_canonical (keys : e.registry.NamedKeys) (op : Comparator) (value : Json)
    (hm : e.registry.models.get? name = some m) {path : List String} (hne : path ≠ [])
    (ends : path.getLast? = some "" → reason) :
    Sends e.host (CanonicalUnless e.registry reason) (pushPath e op value m path) fun leaf =>
      leaf.path = "" → path = [""] := by
  induction path generalizing name m with
  | nil => exact absurd rfl hne
  | cons hop path ih =>
    cases path with
    | nil => exact .pure fun hname => congrArg (· :: []) hname
    | cons next rest =>
      rw [pushPath]
      split
      · exact .pure fun hpath => absurd hpath (Path.ofSegments_ne_empty hop next rest)
      · refine .bind (.ofExcept _) fun r hr => .bind (e.sends_model _ _) fun related hrel => ?_
        have hr := Model.relationship_eq_ok.1 hr
        rw [List.getLast?_cons_cons] at ends
        refine .bind (ih hrel (List.cons_ne_nil _ _) ends) fun leaf hleaf => ?_
        have hsent : (Operation.select (keySelect related r leaf)).CanonicalUnless e.registry
            reason := by
          by_cases hempty : leaf.path = ""
          · refine .inr ⟨⟨_, related, r, leaf.op, leaf.value, hrel, ?_⟩, ends ?_⟩
            · rw [← hempty]
            · rw [hleaf hempty]
              rfl
          · exact .inl (canonical_keySelect related r hempty)
        exact .bind (.perform hsent) fun _ _ => .pure fun hsource =>
          absurd hsource (keys.source hm hr)

theorem pushLeaf_canonical (keys : e.registry.NamedKeys)
    (hm : e.registry.models.get? name = some m) {c : Condition} (hpath : c.path ≠ "")
    (ends : Path.EndsOpen c.path → reason) :
    Sends e.host (CanonicalUnless e.registry reason) (pushLeaf e m c) fun leaf =>
      leaf.path ≠ "" := by
  have hpush := pushPath_canonical e keys c.op c.value hm (Path.segments_ne_nil c.path)
    fun hlast => ends (Path.endsOpen_of_segments hpath hlast)
  exact hpush.weaken fun leaf hleaf hempty =>
    hpath (Path.segments_eq_empty_iff.1 (hleaf hempty))

mutual
theorem push_canonical (keys : e.registry.NamedKeys)
    (hm : e.registry.models.get? name = some m) {n : Filter} (canonical : n.Canonical)
    (ends : ∀ c ∈ n.leaves, Path.EndsOpen c.path → reason) :
    Sends e.host (CanonicalUnless e.registry reason) (push e m n) Filter.Canonical := by
  match n with
  | .condition c =>
    exact .bind (pushLeaf_canonical e keys hm canonical (ends c (List.mem_singleton_self c)))
      fun _ hleaf => .pure hleaf
  | .group op children =>
    exact .bind (pushAll_canonical keys hm canonical.2 ends) fun children' hchildren =>
      .pure ⟨fun hnil => canonical.1 (hchildren.2.1 hnil), hchildren.1⟩

theorem pushAll_canonical (keys : e.registry.NamedKeys)
    (hm : e.registry.models.get? name = some m) {ns : List Filter}
    (canonical : Filter.CanonicalAll ns)
    (ends : ∀ c ∈ Filter.leavesAll ns, Path.EndsOpen c.path → reason) :
    Sends e.host (CanonicalUnless e.registry reason) (pushAll e m ns) fun ns' =>
      Filter.CanonicalAll ns' ∧ (ns' = [] ↔ ns = []) := by
  match ns with
  | [] => exact .pure ⟨trivial, Iff.rfl⟩
  | n :: ns =>
    have hn := push_canonical keys hm canonical.1 fun c hc =>
      ends c (List.mem_append_left _ hc)
    have hns := pushAll_canonical keys hm canonical.2 fun c hc =>
      ends c (List.mem_append_right _ hc)
    exact .bind hn fun n' hn' => .bind hns fun ns' hns' => .pure ⟨⟨hn', hns'.1⟩, by simp⟩
end

theorem pushGroup_canonical (keys : e.registry.NamedKeys)
    (hm : e.registry.models.get? name = some m) {g : FilterGroup}
    (canonical : g.toFilter.Canonical) (ends : g.OpenEnded → reason) :
    Sends e.host (CanonicalUnless e.registry reason) (pushGroup e m g) fun g' =>
      g'.toFilter.Canonical := by
  have hpush := pushAll_canonical e keys hm canonical.2 fun c hc hends => ends ⟨c, hc, hends⟩
  exact .bind hpush fun ns hns => .pure ⟨fun hnil => canonical.1 (hns.2.1 hnil), hns.1⟩

theorem resolveGroup_canonical (keys : e.registry.NamedKeys)
    (hm : e.registry.models.get? name = some m) {g : FilterGroup}
    (canonical : g.toFilter.Canonical) (ends : g.OpenEnded → reason) :
    Sends e.host (CanonicalUnless e.registry reason) (resolveGroup e m g) fun g' =>
      g'.toFilter.Canonical :=
  .bind (pushGroup_canonical e keys hm canonical ends) fun _ hg' =>
    .pure (m.canonical_guardGroup hg')

theorem resolve_canonical (keys : e.registry.NamedKeys)
    (hm : e.registry.models.get? name = some m) {f : Option FilterGroup}
    (canonical : ∀ g ∈ f, g.toFilter.Canonical) (ends : ∀ g ∈ f, g.OpenEnded → reason) :
    Sends e.host (CanonicalUnless e.registry reason) (resolve e m f) fun f' =>
      ∀ g ∈ f', g.toFilter.Canonical := by
  cases f with
  | none => exact .pure (m.canonical_guard canonical)
  | some g =>
    have hpush := pushGroup_canonical e keys hm (canonical g rfl) (ends g rfl)
    refine .bind hpush fun g' hg' => .pure (m.canonical_guard fun g'' h => ?_)
    obtain rfl := Option.some.inj h
    exact hg'

end Pushdown
end ModelActions
