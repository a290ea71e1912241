import Mathlib.Data.List.Forall2
import ModelActions.Proofs.KeyColumns
import ModelActions.Proofs.PushedLeaf

/-!
# What a pushed-down filter says

A leaf whose path leads through a relationship holds of a row if there is a visible row of the
related model, linked to it, of which the rest of the path holds. A filter that was pushed down says
of each row what the filter as it was written says in this reading.
-/
namespace ModelActions

mutual
/-- Whether a tree holds if its leaves are read in some way. -/
def Filter.HoldsBy (leaf : Condition → Prop) : Filter → Prop
  | .condition c => leaf c
  | .group .and children => Filter.AllHoldBy leaf children
  | .group .or children => Filter.AnyHoldsBy leaf children

/-- Whether all of some trees hold. -/
def Filter.AllHoldBy (leaf : Condition → Prop) : List Filter → Prop
  | [] => True
  | n :: ns => Filter.HoldsBy leaf n ∧ Filter.AllHoldBy leaf ns

/-- Whether one of some trees holds. -/
def Filter.AnyHoldsBy (leaf : Condition → Prop) : List Filter → Prop
  | [] => False
  | n :: ns => Filter.HoldsBy leaf n ∨ Filter.AnyHoldsBy leaf ns
end

mutual
/-- There is no negation in a tree: it holds if it held when its leaves held less often. -/
theorem Filter.HoldsBy.mono {leaf leaf' : Condition → Prop} (h : ∀ c, leaf c → leaf' c)
    {n : Filter} (hn : n.HoldsBy leaf) : n.HoldsBy leaf' := by
  match n with
  | .condition c => exact h c hn
  | .group .and children => exact Filter.AllHoldBy.mono h hn
  | .group .or children => exact Filter.AnyHoldsBy.mono h hn

theorem Filter.AllHoldBy.mono {leaf leaf' : Condition → Prop} (h : ∀ c, leaf c → leaf' c)
    {ns : List Filter} (hns : Filter.AllHoldBy leaf ns) : Filter.AllHoldBy leaf' ns := by
  match ns with
  | [] => trivial
  | n :: ns => exact ⟨Filter.HoldsBy.mono h hns.1, Filter.AllHoldBy.mono h hns.2⟩

theorem Filter.AnyHoldsBy.mono {leaf leaf' : Condition → Prop} (h : ∀ c, leaf c → leaf' c)
    {ns : List Filter} (hns : Filter.AnyHoldsBy leaf ns) : Filter.AnyHoldsBy leaf' ns := by
  match ns with
  | [] => exact hns
  | n :: ns => exact hns.imp (Filter.HoldsBy.mono h) (Filter.AnyHoldsBy.mono h)
end

mutual
instance Filter.instDecidableHoldsBy {leaf : Condition → Prop} [DecidablePred leaf] :
    (n : Filter) → Decidable (n.HoldsBy leaf)
  | .condition c => inferInstanceAs (Decidable (leaf c))
  | .group .and children => Filter.instDecidableAllHoldBy children
  | .group .or children => Filter.instDecidableAnyHoldsBy children

instance Filter.instDecidableAllHoldBy {leaf : Condition → Prop} [DecidablePred leaf] :
    (ns : List Filter) → Decidable (Filter.AllHoldBy leaf ns)
  | [] => .isTrue trivial
  | n :: ns =>
    have : Decidable (n.HoldsBy leaf) := Filter.instDecidableHoldsBy n
    have : Decidable (Filter.AllHoldBy leaf ns) := Filter.instDecidableAllHoldBy ns
    inferInstanceAs (Decidable (n.HoldsBy leaf ∧ Filter.AllHoldBy leaf ns))

instance Filter.instDecidableAnyHoldsBy {leaf : Condition → Prop} [DecidablePred leaf] :
    (ns : List Filter) → Decidable (Filter.AnyHoldsBy leaf ns)
  | [] => .isFalse id
  | n :: ns =>
    have : Decidable (n.HoldsBy leaf) := Filter.instDecidableHoldsBy n
    have : Decidable (Filter.AnyHoldsBy leaf ns) := Filter.instDecidableAnyHoldsBy ns
    inferInstanceAs (Decidable (n.HoldsBy leaf ∨ Filter.AnyHoldsBy leaf ns))
end

/-- A filter whose leaves are read in some way. -/
def FilterGroup.HoldsBy (leaf : Condition → Prop) (g : FilterGroup) : Prop :=
  g.toFilter.HoldsBy leaf

instance FilterGroup.instDecidableHoldsBy {leaf : Condition → Prop} [DecidablePred leaf]
    (g : FilterGroup) : Decidable (g.HoldsBy leaf) :=
  inferInstanceAs (Decidable (g.toFilter.HoldsBy leaf))

/-- The reading of a leaf on the rows of the tables. -/
inductive Condition.Reads (registry : Registry) (s : Store) : Model → Condition → Json → Prop
  | own {m : Model} {c : Condition} {row : Json} (here : Pushdown.Local m c.path)
      (holds : c.holds row = true) : Reads registry s m c row
  | related {m : Model} {c : Condition} {row x : Json} {rest : String} {r : Relationship}
      {related : Model} (hop : Path.rest? c.path = some rest)
      (foreign : m.schema.has (Path.head c.path) = false)
      (relationship : m.relationships.get? (Path.head c.path) = some r)
      (leads : registry.models.get? r.related = some related)
      (visible : x ∈ s.seen related) (linked : r.links row x = true)
      (reads : Reads registry s related { c with path := rest } x) : Reads registry s m c row

/-- A leaf that holds still holds if more rows are visible. -/
theorem Condition.Reads.mono {registry : Registry} {s t : Store}
    (h : ∀ {name m}, registry.models.get? name = some m → ∀ row ∈ t.seen m, row ∈ s.seen m)
    {m : Model} {c : Condition} {row : Json} (hc : c.Reads registry t m row) :
    c.Reads registry s m row := by
  induction hc with
  | own here holds => exact .own here holds
  | related hop foreign relationship leads visible linked _ ih =>
    exact .related hop foreign relationship leads (h leads _ visible) linked ih

namespace Pushdown
variable {registry : Registry} {settings : Settings} {world : World} {s : Store}

/-- What the select for the keys of related rows finds. -/
theorem keysOf_keySelect (related : Model) (r : Relationship) (leaf : Condition) (t : Store)
    (ht : t.rows = s.rows) :
    keysOf r.target (Store.selection (keySelect related r leaf)
        (t.found (keySelect related r leaf))).result =
      Json.distinct (((s.seen related).filter leaf.holds).filterMap (·.get? r.target)) := by
  have hfound : s.found (keySelect related r leaf) = (s.seen related).filter leaf.holds := by
    rw [s.found_guard related (f := some (.and [.condition leaf])) rfl rfl]
    refine List.filter_congr fun x _ => ?_
    simp [FilterGroup.holds_and, Filter.holds]
  have hproject (x : Json) : (x.project [r.target]).get? r.target = x.get? r.target :=
    Json.get?_project_single r.target x
  rw [Store.found_congr ht, hfound, Store.selection]
  simp only [keySelect, Store.page, keysOf, List.filterMap_map, Function.comp_def, hproject]

/-- A leaf that asks for the keys of some related rows holds of the rows linked to one of them. -/
theorem holds_keys_iff {m : Model} {hop name : String} {r : Relationship} {related : Model}
    {row : Json} (hm : registry.models.get? name = some m)
    (hr : m.relationships.get? hop = some r) (hrel : registry.models.get? r.related = some related)
    (plain : registry.PlainKeys) (trans : KeysTransitive registry s m [row])
    (hrow : row.isObject = true) {xs : List Json} (hxs : ∀ x ∈ xs, x ∈ s.rows related.table) :
    (Condition.mk r.source .in (.arr (Json.distinct (xs.filterMap (·.get? r.target))))).holds row =
      true ↔ ∃ x ∈ xs, r.links row x = true := by
  have hown : ∀ v, row.get? r.source = some v → KeyValue registry s m [row] v := fun v hv =>
    .given hr (List.mem_singleton.2 rfl) hv
  have hkeys : ∀ x ∈ xs, ∀ v, x.get? r.target = some v → KeyValue registry s m [row] v :=
    fun x hx v hv => .target hm hr hrel (hxs x hx) hv
  rw [holds_oneOf_iff (fun a b c => trans) (plain hm hr).1 hrow hown hkeys]
  simp only [Relationship.links_iff]

/-- A leaf on the model itself is read as it stands. -/
theorem reads_of_local {m : Model} {c : Condition} (hl : Local m c.path) (row : Json) :
    c.Reads registry s m row ↔ c.holds row = true := by
  constructor
  · rintro (⟨-, h⟩ | ⟨hop, foreign, -⟩)
    · exact h
    · simp [Local, hop, foreign] at hl
  · exact .own hl

/-- A leaf that leads through a relationship is read on the rows linked to the given one. -/
theorem reads_of_not_local {m : Model} {c : Condition} {rest : String} {r : Relationship}
    {related : Model} (hp : Path.rest? c.path = some rest)
    (hs : m.schema.has (Path.head c.path) = false)
    (hr : m.relationships.get? (Path.head c.path) = some r)
    (hrel : registry.models.get? r.related = some related) (row : Json) :
    c.Reads registry s m row ↔ ∃ x ∈ s.seen related, r.links row x = true ∧
      Condition.Reads registry s related { c with path := rest } x := by
  constructor
  · rintro (⟨here, -⟩ | ⟨hop, -, relationship, leads, visible, linked, reads⟩)
    · simp [Local, hp, hs] at here
    · obtain rfl := Option.some.inj (hp.symm.trans hop)
      obtain rfl := Option.some.inj (hr.symm.trans relationship)
      obtain rfl := Option.some.inj (hrel.symm.trans leads)
      exact ⟨_, visible, linked, reads⟩
  · rintro ⟨x, visible, linked, reads⟩
    exact .related hp hs hr hrel visible linked reads

/-- What a leaf becomes that leads through a relationship. -/
theorem pushLeaf_hop_eq_ok {m : Model} {c c' : Condition} {rest : String} {t u : Store}
    (hp : Path.rest? c.path = some rest) (hs : m.schema.has (Path.head c.path) = false)
    (h : (pushLeaf (Store.engine world registry settings) m c).runFrom t = (.ok c', u)) :
    ∃ r related leaf t', m.relationships.get? (Path.head c.path) = some r ∧
      registry.models.get? r.related = some related ∧
      (pushLeaf (Store.engine world registry settings) related { c with path := rest }).runFrom t =
        (.ok leaf, t') ∧ u.rows = t'.rows ∧
      c' = ⟨r.source, .in,
        .arr (keysOf r.target (Store.selection (keySelect related r leaf)
          (t'.found (keySelect related r leaf))).result)⟩ := by
  rw [pushLeaf_of_not_local _ m c hp hs] at h
  obtain ⟨r, t₁, h₁, h⟩ := Act.runFrom_bind_eq_ok.1 h
  obtain ⟨related, t₂, h₂, h⟩ := Act.runFrom_bind_eq_ok.1 h
  obtain ⟨leaf, t₃, h₃, h⟩ := Act.runFrom_bind_eq_ok.1 h
  obtain ⟨answer, t₄, h₄, h⟩ := Act.runFrom_bind_eq_ok.1 h
  rw [Act.runFrom_ofExcept, Prod.mk.injEq] at h₁ h₂
  obtain ⟨h₁, rfl⟩ := h₁
  obtain ⟨h₂, rfl⟩ := h₂
  cases (Store.runFrom_perform_select world (Store.select_of_unsorted rfl)).symm.trans h₄
  cases h
  exact ⟨r, related, leaf, t₃, Model.relationship_eq_ok.1 h₁, Registry.get_eq_ok.1 h₂, h₃, rfl,
    rfl⟩

/-- Pushing a leaf down keeps the tables and the reading of the leaf. -/
theorem pushLeaf_spec (plain : registry.PlainKeys) (objects : s.ObjectRows) {m : Model}
    {name : String} (hm : registry.models.get? name = some m) {c c' : Condition} {t u : Store}
    (ht : t.rows = s.rows)
    (h : (pushLeaf (Store.engine world registry settings) m c).runFrom t = (.ok c', u)) :
    u.rows = s.rows ∧ ∀ row, row.isObject = true → KeysTransitive registry s m [row] →
      (c'.holds row = true ↔ c.Reads registry s m row) := by
  induction c using Condition.hop_induction generalizing m name c' t u with
  | last c hp =>
    rw [pushLeaf_of_local _ m c (.inl hp), Act.runFrom_pure] at h
    cases h
    exact ⟨ht, fun row _ _ => (reads_of_local (.inl hp) row).symm⟩
  | hop c rest hp ih =>
    by_cases hs : m.schema.has (Path.head c.path) = true
    · rw [pushLeaf_of_local _ m c (.inr hs), Act.runFrom_pure] at h
      cases h
      exact ⟨ht, fun row _ _ => (reads_of_local (.inr hs) row).symm⟩
    · rw [Bool.not_eq_true] at hs
      obtain ⟨r, related, leaf, t', hr, hrel, hleaf, hu, rfl⟩ := pushLeaf_hop_eq_ok hp hs h
      obtain ⟨ht', hleaf⟩ := ih hrel ht hleaf
      refine ⟨hu.trans ht', fun row hrow trans => ?_⟩
      have hseen : ∀ x ∈ s.seen related, x ∈ s.rows related.table := fun x hx =>
        (Store.mem_seen.1 hx).1
      rw [keysOf_keySelect related r leaf t' ht',
        holds_keys_iff hm hr hrel plain trans hrow fun x hx => hseen x (List.mem_filter.1 hx).1,
        reads_of_not_local hp hs hr hrel]
      -- the rows found are those that the rest of the path is true of
      have hx : ∀ x ∈ s.seen related, (leaf.holds x = true ↔
          Condition.Reads registry s related { c with path := rest } x) := fun x hx =>
        hleaf x (objects _ x (hseen x hx)) (trans.of_stored hrel (by simpa using hseen x hx))
      constructor
      · rintro ⟨x, hm, hlink⟩
        obtain ⟨hv, hh⟩ := List.mem_filter.1 hm
        exact ⟨x, hv, hlink, (hx x hv).1 hh⟩
      · rintro ⟨x, hv, hlink, hread⟩
        exact ⟨x, List.mem_filter.2 ⟨hv, (hx x hv).2 hread⟩, hlink⟩

/-- A group holds of a row if the group that it comes from holds in some reading of its leaves, and
its children do so each by itself. -/
theorem holds_group_iff {row : Json} {reading : Condition → Prop} {op : Connective}
    {ns ns' : List Filter}
    (h : List.Forall₂ (fun n n' => n'.holds row = true ↔ n.HoldsBy reading) ns ns') :
    (Filter.group op ns').holds row = true ↔ (Filter.group op ns).HoldsBy reading := by
  cases op with
  | and =>
    simp only [Filter.holds, Filter.HoldsBy]
    induction h with
    | nil => simp [Filter.allHold, Filter.AllHoldBy]
    | cons hn _ ih => simp only [Filter.allHold, Filter.AllHoldBy, Bool.and_eq_true, hn, ih]
  | or =>
    simp only [Filter.holds, Filter.HoldsBy]
    induction h with
    | nil => simp [Filter.anyHolds, Filter.AnyHoldsBy]
    | cons hn _ ih => simp only [Filter.anyHolds, Filter.AnyHoldsBy, Bool.or_eq_true, hn, ih]

section
variable {e : Engine Store} {m : Model} {rows : Json → Prop} {reading : Condition → Json → Prop}

/-- Pushing a leaf down changes no table, and what it becomes says of some rows what a reading of
the leaf does. -/
def KeepsReading (e : Engine Store) (s : Store) (m : Model) (rows : Json → Prop)
    (reading : Condition → Json → Prop) (c : Condition) : Prop :=
  ∀ {c' : Condition} {t u : Store}, t.rows = s.rows → (pushLeaf e m c).runFrom t = (.ok c', u) →
    u.rows = s.rows ∧ ∀ row, rows row → (c'.holds row = true ↔ reading c row)

mutual
/-- If each leaf keeps its reading when it is pushed down, so does the tree. -/
theorem push_reads (n : Filter) (h : ∀ c ∈ n.leaves, KeepsReading e s m rows reading c)
    {n' : Filter} {t u : Store} (ht : t.rows = s.rows)
    (hrun : (push e m n).runFrom t = (.ok n', u)) :
    u.rows = s.rows ∧ ∀ row, rows row → (n'.holds row = true ↔ n.HoldsBy (reading · row)) := by
  match n with
  | .condition c =>
    obtain ⟨c', t₁, h₁, hrun⟩ := Act.runFrom_bind_eq_ok.1 hrun
    cases hrun
    exact h c (List.mem_singleton.2 rfl) ht h₁
  | .group op children =>
    obtain ⟨children', t₁, h₁, hrun⟩ := Act.runFrom_bind_eq_ok.1 hrun
    cases hrun
    obtain ⟨hu, hc⟩ := pushAll_reads children h ht h₁
    exact ⟨hu, fun row hrow => holds_group_iff (hc.imp fun _ _ hn => hn row hrow)⟩

theorem pushAll_reads (ns : List Filter)
    (h : ∀ c ∈ Filter.leavesAll ns, KeepsReading e s m rows reading c) {ns' : List Filter}
    {t u : Store} (ht : t.rows = s.rows) (hrun : (pushAll e m ns).runFrom t = (.ok ns', u)) :
    u.rows = s.rows ∧ List.Forall₂
      (fun n n' => ∀ row, rows row → (n'.holds row = true ↔ n.HoldsBy (reading · row)))
      ns ns' := by
  match ns with
  | [] =>
    cases hrun
    exact ⟨ht, .nil⟩
  | n :: ns =>
    obtain ⟨n', t₁, h₁, hrun⟩ := Act.runFrom_bind_eq_ok.1 hrun
    obtain ⟨ns', t₂, h₂, hrun⟩ := Act.runFrom_bind_eq_ok.1 hrun
    cases hrun
    obtain ⟨ht₁, hn⟩ := push_reads n (fun c hc => h c (List.mem_append_left _ hc)) ht h₁
    obtain ⟨ht₂, hns⟩ := pushAll_reads ns (fun c hc => h c (List.mem_append_right _ hc)) ht₁ h₂
    exact ⟨ht₂, .cons hn hns⟩
end

theorem pushGroup_reads {g g' : FilterGroup}
    (h : ∀ c ∈ g.leaves, KeepsReading e s m rows reading c) {u : Store}
    (hrun : (pushGroup e m g).runFrom s = (.ok g', u)) :
    u.rows = s.rows ∧ ∀ row, rows row → (g'.holds row = true ↔ g.HoldsBy (reading · row)) := by
  obtain ⟨children, t, h₁, hrun⟩ := Act.runFrom_bind_eq_ok.1 hrun
  cases hrun
  obtain ⟨hu, hc⟩ := pushAll_reads g.children h rfl h₁
  exact ⟨hu, fun row hrow => holds_group_iff (hc.imp fun _ _ hn => hn row hrow)⟩

end

/-- How the readings of a tree that was pushed down compare with those of the written one. -/
def SameReading (registry : Registry) (s : Store) (m : Model) (n n' : Filter) : Prop :=
  ∀ row, row.isObject = true → KeysTransitive registry s m [row] →
    (n'.holds row = true ↔ n.HoldsBy fun c => c.Reads registry s m row)

theorem sameReading_group {m : Model} {op : Connective} {ns ns' : List Filter}
    (h : List.Forall₂ (SameReading registry s m) ns ns') :
    SameReading registry s m (.group op ns) (.group op ns') := fun row hrow trans =>
  holds_group_iff (h.imp fun _ _ hn => hn row hrow trans)

/-- Pushing trees down keeps the tables and the readings of the trees. -/
theorem pushAll_spec (plain : registry.PlainKeys) (objects : s.ObjectRows) {m : Model}
    {name : String} (hm : registry.models.get? name = some m) (ns : List Filter)
    {ns' : List Filter} {t u : Store} (ht : t.rows = s.rows)
    (h : (pushAll (Store.engine world registry settings) m ns).runFrom t = (.ok ns', u)) :
    u.rows = s.rows ∧ List.Forall₂ (SameReading registry s m) ns ns' := by
  have hleaves : ∀ c ∈ Filter.leavesAll ns, KeepsReading (Store.engine world registry settings) s m
      (fun row => row.isObject = true ∧ KeysTransitive registry s m [row])
      (fun c row => c.Reads registry s m row) c := by
    intro c _ c' t u' ht hleaf
    obtain ⟨hu, hreads⟩ := pushLeaf_spec plain objects hm ht hleaf
    exact ⟨hu, fun row hrow => hreads row hrow.1 hrow.2⟩
  obtain ⟨hu, hns⟩ := pushAll_reads ns hleaves ht h
  exact ⟨hu, hns.imp fun _ _ hn row hrow trans => hn row ⟨hrow, trans⟩⟩

/-- A filter that was pushed down holds of just the rows that satisfy it as it was written, and
pushing it down changes no table. -/
theorem pushGroup_holds_iff (plain : registry.PlainKeys) (objects : s.ObjectRows) {m : Model}
    {name : String} (hm : registry.models.get? name = some m) {g g' : FilterGroup} {u : Store}
    (h : (pushGroup (Store.engine world registry settings) m g).runFrom s = (.ok g', u)) :
    u.rows = s.rows ∧ ∀ row, row.isObject = true → KeysTransitive registry s m [row] →
      (g'.holds row = true ↔ g.HoldsBy fun c => c.Reads registry s m row) := by
  obtain ⟨children, t, h₁, h⟩ := Act.runFrom_bind_eq_ok.1 h
  cases h
  obtain ⟨hu, hc⟩ := pushAll_spec plain objects hm g.children rfl h₁
  exact ⟨hu, sameReading_group hc⟩

/-- The note is by a user of the name, one who is not marked as deleted. -/
theorem pushed_author_name :
    ((pushGroup (Store.engine Blog.world Blog.registry {}) Blog.post
      (.leaf "author.name" .is (.str "ada"))).runFrom Blog.store).1 =
        .ok (.leaf "author_id" .in (.arr [.str "a"])) ∧
      (FilterGroup.leaf "author.name" .is (.str "ada")).HoldsBy fun c =>
        c.Reads Blog.registry Blog.store Blog.post Blog.note := by
  have hm : Blog.registry.models.get? "post" = some Blog.post := by rfl
  have hrun : ((pushGroup (Store.engine Blog.world Blog.registry {}) Blog.post
      (.leaf "author.name" .is (.str "ada"))).runFrom Blog.store).1 =
        .ok (.leaf "author_id" .in (.arr [.str "a"])) := by cbv
  have hholds : (FilterGroup.leaf "author_id" .in (.arr [.str "a"])).holds Blog.note = true := by
    decide +kernel
  have trans : KeysTransitive Blog.registry Blog.store Blog.post [Blog.note] :=
    Blog.keysTransitive hm [Blog.note] (by simp)
  refine ⟨hrun, ?_⟩
  generalize hrun' : (pushGroup (Store.engine Blog.world Blog.registry {}) Blog.post
      (.leaf "author.name" .is (.str "ada"))).runFrom Blog.store = answer at hrun
  obtain ⟨result, u⟩ := answer
  obtain rfl : result = _ := hrun
  exact ((pushGroup_holds_iff Blog.plainKeys Blog.objectRows hm hrun').2 Blog.note rfl trans).1
    hholds

end Pushdown
end ModelActions
