import ModelActions.Proofs.CanonicalScopes
import ModelActions.Proofs.ReadByKey

/-!
# Scopes of related models

A reference to a scope of a related model prefixes each leaf of the scope by the relationship, and
each leaf is pushed down by itself. So a row is selected if each leaf that counts holds of some row
that is linked to it, not always the same. It is the same where no more than one row is linked, and
where the scope asks for no two things at once.
-/
namespace ModelActions

namespace Path

theorem headChars_append {cs : List Char} (h : '.' ∉ cs) (ds : List Char) :
    headChars (cs ++ '.' :: ds) = (cs, some ds) := by
  induction cs with
  | nil => simp [headChars]
  | cons c cs ih =>
    simp only [List.mem_cons, not_or] at h
    simp [headChars, Ne.symm h.1, ih h.2]

theorem head_append {hop : String} (h : '.' ∉ hop.toList) (path : String) :
    head (hop ++ "." ++ path) = hop := by
  simp [head, headChars_append h]

theorem rest?_append {hop : String} (h : '.' ∉ hop.toList) (path : String) :
    rest? (hop ++ "." ++ path) = some path := by
  simp [rest?, headChars_append h]

end Path

namespace Filter

mutual
theorem HoldsBy.mapAttributes_iff (leaf : Condition → Prop) (f : String → String) (n : Filter) :
    (n.mapAttributes f).HoldsBy leaf ↔ n.HoldsBy fun c => leaf { c with path := f c.path } := by
  match n with
  | .condition c => exact Iff.rfl
  | .group .and children => exact AllHoldBy.mapAttributes_iff leaf f children
  | .group .or children => exact AnyHoldsBy.mapAttributes_iff leaf f children

theorem AllHoldBy.mapAttributes_iff (leaf : Condition → Prop) (f : String → String)
    (ns : List Filter) : AllHoldBy leaf (mapAttributesAll f ns) ↔
      AllHoldBy (fun c => leaf { c with path := f c.path }) ns := by
  match ns with
  | [] => exact Iff.rfl
  | n :: ns =>
    exact and_congr (HoldsBy.mapAttributes_iff leaf f n) (AllHoldBy.mapAttributes_iff leaf f ns)

theorem AnyHoldsBy.mapAttributes_iff (leaf : Condition → Prop) (f : String → String)
    (ns : List Filter) : AnyHoldsBy leaf (mapAttributesAll f ns) ↔
      AnyHoldsBy (fun c => leaf { c with path := f c.path }) ns := by
  match ns with
  | [] => exact Iff.rfl
  | n :: ns =>
    exact or_congr (HoldsBy.mapAttributes_iff leaf f n) (AnyHoldsBy.mapAttributes_iff leaf f ns)
end

mutual
theorem mem_leaves_mapAttributes {f : String → String} {c : Condition} (n : Filter)
    (h : c ∈ (n.mapAttributes f).leaves) : ∃ c' ∈ n.leaves, c = { c' with path := f c'.path } := by
  match n with
  | .condition c' => exact ⟨c', List.mem_singleton.2 rfl, List.mem_singleton.1 h⟩
  | .group op children => exact mem_leavesAll_mapAttributes children h

theorem mem_leavesAll_mapAttributes {f : String → String} {c : Condition} (ns : List Filter)
    (h : c ∈ leavesAll (mapAttributesAll f ns)) :
    ∃ c' ∈ leavesAll ns, c = { c' with path := f c'.path } := by
  match ns with
  | [] => contradiction
  | n :: ns =>
    rcases List.mem_append.1 h with h | h
    · obtain ⟨c', hc', he⟩ := mem_leaves_mapAttributes n h
      exact ⟨c', List.mem_append_left _ hc', he⟩
    · obtain ⟨c', hc', he⟩ := mem_leavesAll_mapAttributes ns h
      exact ⟨c', List.mem_append_right _ hc', he⟩
end

mutual
/-- A tree holds of a row if it holds when its leaves are read on this row. -/
theorem holds_iff_holdsBy (row : Json) (n : Filter) :
    n.holds row = true ↔ n.HoldsBy fun c => c.holds row = true := by
  match n with
  | .condition c => exact Iff.rfl
  | .group op children => exact Pushdown.holds_group_iff (holdsAll_iff_holdsBy row children)

theorem holdsAll_iff_holdsBy (row : Json) (ns : List Filter) :
    List.Forall₂ (fun n n' => n'.holds row = true ↔ n.HoldsBy fun c => c.holds row = true)
      ns ns := by
  match ns with
  | [] => exact .nil
  | n :: ns => exact .cons (holds_iff_holdsBy row n) (holdsAll_iff_holdsBy row ns)
end

/-! ### Trees that a single row satisfies -/

mutual
/-- Each and of the tree has one member at most. -/
def Disjunctive : Filter → Prop
  | .condition _ => True
  | .group .and children => children.length ≤ 1 ∧ DisjunctiveAll children
  | .group .or children => DisjunctiveAll children

def DisjunctiveAll : List Filter → Prop
  | [] => True
  | n :: ns => Disjunctive n ∧ DisjunctiveAll ns
end

mutual
/-- A canonical tree holds by a leaf that does. -/
theorem exists_of_holdsBy {leaf : Condition → Prop} {n : Filter} (canonical : n.Canonical)
    (h : n.HoldsBy leaf) : ∃ c, leaf c := by
  match n with
  | .condition c => exact ⟨c, h⟩
  | .group .and (n :: ns) => exact exists_of_holdsBy canonical.2.1 h.1
  | .group .or children => exact exists_of_anyHoldsBy canonical.2 h

theorem exists_of_anyHoldsBy {leaf : Condition → Prop} {ns : List Filter}
    (canonical : CanonicalAll ns) (h : AnyHoldsBy leaf ns) : ∃ c, leaf c := by
  match ns with
  | n :: ns =>
    rcases h with h | h
    · exact exists_of_holdsBy canonical.1 h
    · exact exists_of_anyHoldsBy canonical.2 h
end

mutual
/-- If a tree asks for no two things at once, one witness is enough for all of it. -/
theorem HoldsBy.exists_single {α : Type} {P : α → Condition → Prop} {n : Filter}
    (canonical : n.Canonical) (disjunctive : n.Disjunctive) (h : n.HoldsBy fun c => ∃ x, P x c) :
    ∃ x, n.HoldsBy (P x) := by
  match n with
  | .condition c => exact h
  | .group .and [n] =>
    obtain ⟨x, hx⟩ := HoldsBy.exists_single canonical.2.1 disjunctive.2.1 h.1
    exact ⟨x, hx, trivial⟩
  | .group .and (_ :: _ :: _) => exact absurd disjunctive.1 (by simp)
  | .group .or children => exact AnyHoldsBy.exists_single canonical.2 disjunctive h

theorem AnyHoldsBy.exists_single {α : Type} {P : α → Condition → Prop} {ns : List Filter}
    (canonical : CanonicalAll ns) (disjunctive : DisjunctiveAll ns)
    (h : AnyHoldsBy (fun c => ∃ x, P x c) ns) : ∃ x, AnyHoldsBy (P x) ns := by
  match ns with
  | n :: ns =>
    rcases h with h | h
    · obtain ⟨x, hx⟩ := HoldsBy.exists_single canonical.1 disjunctive.1 h
      exact ⟨x, .inl hx⟩
    · obtain ⟨x, hx⟩ := AnyHoldsBy.exists_single canonical.2 disjunctive.2 h
      exact ⟨x, .inr hx⟩
end

end Filter

/-- Whether a row is linked to a visible row of the related model that has some property. -/
def Store.relates (s : Store) (r : Relationship) (related : Model) (p : Json → Bool)
    (row : Json) : Bool :=
  (s.seen related).any fun x => r.links row x && p x

/-- The keys of a relationship are not proper fractions. -/
structure Relationship.WholeKeys (r : Relationship) (s : Store) (m related : Model) : Prop where
  source : ∀ row ∈ s.seen m, ∀ v, row.get? r.source = some v → v.isFraction = false
  target : ∀ x ∈ s.seen related, ∀ v, x.get? r.target = some v → v.isFraction = false

/-- No two rows that a model sees are linked to a row. -/
def Relationship.LinksOne (r : Relationship) (s : Store) (related : Model) (row : Json) : Prop :=
  ∀ x ∈ s.seen related, ∀ y ∈ s.seen related,
    r.links row x = true → r.links row y = true → x = y

section
variable {s : Store} {r : Relationship} {related : Model} {row : Json} {g : FilterGroup}

theorem Store.relates_iff {p : Json → Bool} :
    s.relates r related p row = true ↔
      ∃ x, x ∈ s.seen related ∧ r.links row x = true ∧ p x = true := by
  simp [relates]

/-- A linked row of which the whole filter holds satisfies each of its leaves. -/
theorem FilterGroup.holdsBy_of_relates (h : s.relates r related g.holds row = true) :
    g.HoldsBy fun c => s.relates r related c.holds row = true := by
  obtain ⟨x, hx, hlink, hholds⟩ := Store.relates_iff.1 h
  exact ((Filter.holds_iff_holdsBy x g.toFilter).1 hholds).mono fun c hc =>
    Store.relates_iff.2 ⟨x, hx, hlink, hc⟩

theorem FilterGroup.relates_of_holdsBy (canonical : g.toFilter.Canonical)
    (single : g.toFilter.Disjunctive ∨ r.LinksOne s related row)
    (h : g.HoldsBy fun c => s.relates r related c.holds row = true) :
    s.relates r related g.holds row = true := by
  have hleaves : g.HoldsBy fun c =>
      ∃ x, x ∈ s.seen related ∧ r.links row x = true ∧ c.holds x = true :=
    Filter.HoldsBy.mono (fun c => Store.relates_iff.1) h
  have hone : ∃ x, g.HoldsBy fun c =>
      x ∈ s.seen related ∧ r.links row x = true ∧ c.holds x = true := by
    rcases single with disjunctive | one
    · exact Filter.HoldsBy.exists_single canonical disjunctive hleaves
    · obtain ⟨_, x, hx, hlink, -⟩ := Filter.exists_of_holdsBy canonical hleaves
      refine ⟨x, Filter.HoldsBy.mono ?_ hleaves⟩
      rintro c ⟨y, hy, hlink', hc⟩
      obtain rfl := one x hx y hy hlink hlink'
      exact ⟨hx, hlink, hc⟩
  obtain ⟨x, hholds⟩ := hone
  obtain ⟨_, hx, hlink, -⟩ := Filter.exists_of_holdsBy canonical hholds
  have hwhole := Filter.HoldsBy.mono (fun _ hc => hc.2.2) hholds
  exact Store.relates_iff.2 ⟨x, hx, hlink, (Filter.holds_iff_holdsBy x g.toFilter).2 hwhole⟩

end

namespace Scope
variable {registry : Registry} {m related : Model} {hop scope : String} {r : Relationship}
  {g : FilterGroup}

/-- What the name of a scope of a related model stands for. -/
theorem resolve_related (leads : registry.Leads m hop r related)
    (hg : related.scopes.get? scope = some g) (hhop : '.' ∉ hop.toList)
    (hscope : '.' ∉ scope.toList) :
    resolve registry m none (.str (hop ++ "." ++ scope)) =
      .ok (g.mapAttributes fun path => hop ++ "." ++ path) := by
  have hsegments : Path.segments (hop ++ "." ++ scope) = [hop, scope] := by
    rw [Path.segments_of_rest?_some (Path.rest?_append hhop scope), Path.head_append hhop,
      Path.segments_of_rest?_none (Path.rest?_of_not_mem hscope)]
  have hnamed : named registry none related [scope] = .ok g := by
    simp only [named, hg, Option.some_or]
  rw [resolve, hsegments, named, Model.relationship_eq_ok.2 leads.relationship]
  refine bind_eq_ok.2 ⟨r, rfl, bind_eq_ok.2 ⟨related, Registry.get_eq_ok.2 leads.model, ?_⟩⟩
  exact bind_eq_ok.2 ⟨g, hnamed, rfl⟩

end Scope

namespace Pushdown
variable {registry : Registry} {settings : Settings} {world : World} {s : Store}
  {m related : Model} {hop : String} {r : Relationship}

/-- The part of a leaf that is read on the related rows. -/
def afterHop (c : Condition) : Condition := { c with path := (Path.rest? c.path).getD "" }

/-- A leaf that leads one hop far is read on the rows that are linked by the keys of the hop. -/
theorem keepsReading_hop (objects : s.ObjectRows) {c : Condition}
    (leads : registry.Leads m (Path.head c.path) r related)
    (foreign : m.schema.has (Path.head c.path) = false) (source : Path.Plain r.source)
    (whole : r.WholeKeys s m related) {rest : String} (hrest : Path.rest? c.path = some rest)
    (flat : '.' ∉ rest.toList) :
    KeepsReading (Store.engine world registry settings) s m (· ∈ s.seen m)
      (fun c row => s.relates r related (afterHop c).holds row = true) c := by
  intro c' t u ht hrun
  have hafter : afterHop c = { c with path := rest } := by rw [afterHop, hrest, Option.getD_some]
  obtain ⟨r', related', leaf, t', hr, hrel, hleaf, hu, rfl⟩ :=
    pushLeaf_hop_eq_ok hrest foreign hrun
  obtain rfl := Option.some.inj (leads.relationship.symm.trans hr)
  obtain rfl := Option.some.inj (leads.model.symm.trans hrel)
  rw [pushLeaf_of_local _ _ _ (.inl (Path.rest?_of_not_mem flat)), Act.runFrom_pure] at hleaf
  cases hleaf
  refine ⟨hu.trans ht, fun row hrow => ?_⟩
  have hobject : row.isObject = true := objects _ row (Store.mem_seen.1 hrow).1
  dsimp only
  rw [keysOf_keySelect related r _ t ht, hafter, Store.relates_iff,
    holds_oneOf_iff (K := fun v => v.isFraction = false) (fun a b c => Json.looseEq_trans) source
      hobject (whole.source row hrow) fun x hx => whole.target x (List.mem_filter.1 hx).1]
  constructor
  · rintro ⟨x, hx, key⟩
    obtain ⟨hseen, hholds⟩ := List.mem_filter.1 hx
    exact ⟨x, hseen, Relationship.links_iff.2 key, hholds⟩
  · rintro ⟨x, hseen, hlink, hholds⟩
    exact ⟨x, List.mem_filter.2 ⟨hseen, hholds⟩, Relationship.links_iff.1 hlink⟩

/-- A filter of the related model, prefixed by the hop, can be pushed down, and is read leaf by leaf
on the rows that are linked. -/
theorem pushGroup_hop (world : World) (settings : Settings) (objects : s.ObjectRows)
    (leads : registry.Leads m hop r related)
    (foreign : m.schema.has hop = false) (hhop : '.' ∉ hop.toList) (source : Path.Plain r.source)
    (whole : r.WholeKeys s m related) {g : FilterGroup}
    (flat : ∀ c ∈ g.leaves, '.' ∉ c.path.toList) :
    ∃ g' u, (pushGroup (Store.engine world registry settings) m
        (g.mapAttributes fun path => hop ++ "." ++ path)).runFrom s = (.ok g', u) ∧
      ∀ row ∈ s.seen m, (g'.holds row = true ↔
        g.HoldsBy fun c => s.relates r related c.holds row = true) := by
  let prefixed := g.mapAttributes fun path => hop ++ "." ++ path
  have hleaf : ∀ c ∈ prefixed.leaves, ∃ rest, '.' ∉ rest.toList ∧
      Path.rest? c.path = some rest ∧ Path.head c.path = hop := by
    intro c hc
    obtain ⟨c', hc', rfl⟩ := Filter.mem_leavesAll_mapAttributes g.children hc
    exact ⟨c'.path, flat c' hc', Path.rest?_append hhop c'.path, Path.head_append hhop c'.path⟩
  have hresolves : ∀ c ∈ prefixed.leaves, Resolves registry m c.path := by
    intro c hc
    obtain ⟨rest, hflat, hrest, rfl⟩ := hleaf c hc
    exact .hop hrest leads (.here (.inl (Path.rest?_of_not_mem hflat)))
  have hkeeps : ∀ c ∈ prefixed.leaves,
      KeepsReading (Store.engine world registry settings) s m (· ∈ s.seen m)
        (fun c row => s.relates r related (afterHop c).holds row = true) c := by
    intro c hc
    obtain ⟨rest, hflat, hrest, rfl⟩ := hleaf c hc
    exact keepsReading_hop objects leads foreign source whole hrest hflat
  have hpushed : Act.Succeeds (pushGroup (Store.engine world registry settings) m prefixed) :=
    .bind (pushAll_succeeds _ hresolves) fun children => .pure _
  obtain ⟨g', u, hrun⟩ := hpushed s
  refine ⟨g', u, hrun, fun row hrow => ?_⟩
  have hafter (c : Condition) : afterHop { c with path := hop ++ "." ++ c.path } = c := by
    rw [afterHop, Path.rest?_append hhop, Option.getD_some]
  have hmap := Filter.HoldsBy.mapAttributes_iff
    (fun c => s.relates r related (afterHop c).holds row = true)
    (fun path => hop ++ "." ++ path) g.toFilter
  simp only [hafter] at hmap
  exact ((pushGroup_reads hkeeps hrun).2 row hrow).trans hmap

end Pushdown

/-- A scope of a model that a relationship leads to. Its leaves are about that model itself, and the
keys that link the rows are no proper fractions. -/
structure RelatedScope (registry : Registry) (s : Store) (m : Model) (hop : String)
    (r : Relationship) (related : Model) (scope : String) (g : FilterGroup) : Prop where
  leads : registry.Leads m hop r related
  foreign : m.schema.has hop = false
  named : related.scopes.get? scope = some g
  flat : ∀ c ∈ g.leaves, '.' ∉ c.path.toList
  whole : r.WholeKeys s m related
  objects : s.ObjectRows

/-- A scope of a related model, named over a relationship, selects the visible rows that satisfy it
if each of its leaves is taken to hold where it holds of some row that is linked by the keys of the
relationship. Every row is selected that is linked to a row of which the whole scope holds. There
is such a row wherever the scope asks for no two things at once, and wherever no two rows are
linked. -/
theorem Query.select_related_scope (world : World) {specs : List ModelSpec} {registry : Registry}
    (loaded : Registry.ofSpecs specs = .ok registry) (settings : Settings) {s : Store}
    {model hop scope : String} {m related : Model} {r : Relationship} {g : FilterGroup}
    (hm : registry.models.get? model = some m)
    (h : RelatedScope registry s m hop r related scope g) (hhop : '.' ∉ hop.toList)
    (hscope : '.' ∉ scope.toList) (source : Path.Plain r.source) :
    ∃ found t, (select (Store.engine world registry settings) model
        { scopes := some (.str (hop ++ "." ++ scope)) }).runFrom s = (.ok found, t) ∧
      t.rows = s.rows ∧
      found.result = (s.seen m).filter (fun row =>
        decide (g.HoldsBy fun c => s.relates r related c.holds row = true)) ∧
      (∀ row ∈ s.seen m, s.relates r related g.holds row = true → row ∈ found.result) ∧
      ∀ row ∈ found.result, g.toFilter.Disjunctive ∨ r.LinksOne s related row →
        s.relates r related g.holds row = true := by
  obtain rfl := Registry.name_of_ofSpecs loaded hm
  have canonical := (Registry.canonicalScopes_of_ofSpecs loaded).scopes h.leads.model h.named
  have hresolved : scopesOf (Store.engine world registry settings) m
      { filters := .null, scopes := some (.str (hop ++ "." ++ scope)) } =
        .ok (some (g.mapAttributes fun path => hop ++ "." ++ path)) :=
    bind_eq_ok.2 ⟨none, rfl, bind_eq_ok.2
      ⟨_, Scope.resolve_related h.leads h.named hhop hscope, rfl⟩⟩
  have hunfiltered : Filter.parse .null = .ok none := rfl
  obtain ⟨g', u, hpushed, hholds⟩ := Pushdown.pushGroup_hop world settings h.objects h.leads
    h.foreign hhop source h.whole h.flat
  obtain ⟨found, t, hrun, ht, hresult⟩ :=
    runFrom_select_joined hm hunfiltered hresolved rfl hpushed none none
  have hfound : found.result = (s.seen m).filter (fun row =>
      decide (g.HoldsBy fun c => s.relates r related c.holds row = true)) := by
    rw [hresult]
    apply List.filter_congr
    intro row hrow
    rw [Bool.eq_iff_iff, decide_eq_true_iff]
    exact hholds row hrow
  refine ⟨found, t, hrun, ht, hfound, fun row hrow hrelates => ?_, fun row hrow single => ?_⟩
  · rw [hfound, List.mem_filter, decide_eq_true_iff]
    exact ⟨hrow, FilterGroup.holdsBy_of_relates hrelates⟩
  · rw [hfound, List.mem_filter, decide_eq_true_iff] at hrow
    exact FilterGroup.relates_of_holdsBy canonical single hrow.2

/-! ## Authors with books, of which some are long and some are novels -/

namespace Sagas

def specs (hop scope key : String) : List ModelSpec :=
  [{ name := "author"
     config := ⟨some "id", some "authors", none, false, false, some "author", some "authors"⟩
     relationships := [(hop, { kind := .hasMany, model := "book", foreignKey := some "author_id",
                               localKey := some key })] },
   { name := "book"
     config := ⟨some "id", some "books", none, false, false, some "book", some "books"⟩
     scopes := [(scope, .obj [("genre", .str "novel"), ("length", .str "long")])] }]

/-- The books of an author, by a column of the author. -/
def booksOf (hop key : String) : Relationship :=
  ⟨.hasMany, hop, "author", "book", key, "author_id"⟩

def authorModel (hop key : String) : Model :=
  ⟨"author", [], ⟨"id", "authors", none, false, false, "author", "authors"⟩,
    [(hop, booksOf hop key)], [], [], []⟩

/-- Novels that are long. -/
def saga : FilterGroup :=
  .and [.condition ⟨"genre", .eq, .str "novel"⟩, .condition ⟨"length", .eq, .str "long"⟩]

def bookModel (scope : String) : Model :=
  ⟨"book", [], ⟨"id", "books", none, false, false, "book", "books"⟩, [], [(scope, saga)], [], []⟩

def registry (hop scope key : String) : Registry :=
  ⟨[("author", authorModel hop key), ("book", bookModel scope)]⟩

theorem loaded (hop scope key : String) :
    Registry.ofSpecs (specs hop scope key) = .ok (registry hop scope key) := by
  have hlt : ¬"book" < "author" := by decide
  have hordered {α : Type} (a b : α) :
      Members.ofList [("author", a), ("book", b)] = [("author", a), ("book", b)] := by
    rw [Members.ofList, List.foldl_cons, List.foldl_cons, List.foldl_nil]
    simp only [Members.insert, hlt]
    rfl
  have hconfigs : Registry.configs (specs hop scope key) =
      [("author", (authorModel hop key).config), ("book", (bookModel scope).config)] :=
    hordered _ _
  have hmodels : (specs hop scope key).mapM (Registry.readModel
      (Registry.configs (specs hop scope key))) = .ok [authorModel hop key, bookModel scope] := by
    rw [hconfigs]
    rfl
  exact bind_eq_ok.2 ⟨_, hmodels, congrArg (Except.ok ∘ Registry.mk) (hordered _ _)⟩

def author (key id : String) : Json := .obj (Members.insert [("id", .str id)] key (.str id))

def book (author genre length : String) : Json :=
  .obj [("author_id", .str author), ("genre", .str genre), ("length", .str length)]

def authors (key : String) : List Json := [author key "ada", author key "bob"]

/-- Ada wrote a novel and something long, Bob a long novel. -/
def books : List Json :=
  [book "ada" "novel" "short", book "ada" "essay" "long", book "bob" "novel" "long"]

def store (key : String) : Store where
  rows table := if table = "authors" then authors key else if table = "books" then books else []

theorem mem_authors {key : String} {row : Json} (h : row ∈ authors key) :
    ∃ id, row = author key id := by
  simp only [authors, List.mem_cons, List.not_mem_nil, or_false] at h
  exact h.elim (⟨_, ·⟩) (⟨_, ·⟩)

theorem mem_books {row : Json} (h : row ∈ books) :
    ∃ author genre length, row = book author genre length := by
  simp only [books, List.mem_cons, List.not_mem_nil, or_false] at h
  obtain rfl | rfl | rfl := h <;> exact ⟨_, _, _, rfl⟩

/-- The rows are linked by strings, whatever their column is called. -/
theorem relatedScope (hop scope key : String) :
    RelatedScope (registry hop scope key) (store key) (authorModel hop key) hop (booksOf hop key)
      (bookModel scope) scope saga where
  leads := ⟨by simp [authorModel, Members.get?], rfl⟩
  foreign := rfl
  named := by simp [bookModel, Members.get?]
  flat := by decide +kernel
  whole :=
    { source := by
        intro row hrow v hv
        obtain ⟨id, rfl⟩ := mem_authors (Store.mem_seen.1 hrow).1
        have hid : (author key id).get? key = some (.str id) := Members.get?_insert_self _ key _
        cases hid.symm.trans hv
        rfl
      target := by
        intro row hrow v hv
        obtain ⟨name, genre, length, rfl⟩ := mem_books (Store.mem_seen.1 hrow).1
        cases hv
        rfl }
  objects := by
    intro table row hrow
    simp only [store] at hrow
    split at hrow
    · obtain ⟨id, rfl⟩ := mem_authors hrow
      rfl
    · split at hrow
      · obtain ⟨name, genre, length, rfl⟩ := mem_books hrow
        rfl
      · contradiction

/-- The authors of a saga, as a select by the name of the scope finds them. -/
def ofSagas (hop scope key : String) : Except Error Selection × Store :=
  (Query.select (Store.engine Blog.world (registry hop scope key) {}) "author"
    { scopes := some (.str (hop ++ "." ++ scope)) }).runFrom (store key)

def foundSagas (hop scope key : String) : Option (List Json) :=
  (ofSagas hop scope key).1.toOption.map (·.result)

/-- The authors who wrote a saga. -/
def wroteSaga (hop scope key : String) : List Json :=
  ((store key).seen (authorModel hop key)).filter
    ((store key).relates (booksOf hop key) (bookModel scope) saga.holds)

/-- Ada is selected for two of her books, Bob for the only one that he wrote. -/
theorem select_sagas :
    (Registry.ofSpecs (specs "books" "saga" "id") = .ok (registry "books" "saga" "id") ∧
      RelatedScope (registry "books" "saga" "id") (store "id") (authorModel "books" "id") "books"
        (booksOf "books" "id") (bookModel "saga") "saga" saga ∧
      '.' ∉ "books".toList ∧ '.' ∉ "saga".toList ∧ Path.Plain "id") ∧
    (booksOf "books" "id").LinksOne (store "id") (bookModel "saga") (author "id" "bob") ∧
    ∃ found t, ofSagas "books" "saga" "id" = (.ok found, t) ∧ t.rows = (store "id").rows ∧
      found.result = [author "id" "ada", author "id" "bob"] ∧
      (store "id").relates (booksOf "books" "id") (bookModel "saga") saga.holds
        (author "id" "bob") = true := by
  have hbooks : '.' ∉ "books".toList := by decide
  have hsaga : '.' ∉ "saga".toList := by decide
  have plain : Path.Plain "id" := ⟨by decide, by decide⟩
  have hscope := relatedScope "books" "saga" "id"
  have hone : (booksOf "books" "id").LinksOne (store "id") (bookModel "saga")
      (author "id" "bob") := by
    have hlinked : ((store "id").seen (bookModel "saga")).filter
        ((booksOf "books" "id").links (author "id" "bob")) = [book "bob" "novel" "long"] := by cbv
    have honly {x : Json} (hx : x ∈ (store "id").seen (bookModel "saga"))
        (hlink : (booksOf "books" "id").links (author "id" "bob") x = true) :
        x = book "bob" "novel" "long" := by
      rw [← List.mem_singleton, ← hlinked]
      exact List.mem_filter.2 ⟨hx, hlink⟩
    exact fun x hx y hy hlink hlink' => (honly hx hlink).trans (honly hy hlink').symm
  have hm : (registry "books" "saga" "id").models.get? "author" =
      some (authorModel "books" "id") := rfl
  obtain ⟨found, t, hrun, ht, hresult, -, hsingle⟩ := Query.select_related_scope Blog.world
    (loaded "books" "saga" "id") {} hm hscope hbooks hsaga plain
  have hfound : found.result = [author "id" "ada", author "id" "bob"] := by
    rw [hresult]
    cbv
  have hbob := hsingle (author "id" "bob") (by simp [hfound]) (.inr hone)
  exact ⟨⟨loaded _ _ _, hscope, hbooks, hsaga, plain⟩, hone, found, t, hrun, ht, hfound, hbob⟩

/-- Sagas are a scope of the books of an author, by columns without a point. -/
def Offered (hop scope key : String) : Prop :=
  Registry.ofSpecs (specs hop scope key) = .ok (registry hop scope key) ∧
    RelatedScope (registry hop scope key) (store key) (authorModel hop key) hop (booksOf hop key)
      (bookModel scope) scope saga ∧
    '.' ∉ (booksOf hop key).source.toList ∧ '.' ∉ (booksOf hop key).target.toList

/-- What is selected are not the authors of a saga: Ada wrote a novel and something long, but no
long novel. Nobody is selected over a relationship or by a scope with a point in its name, nor by a
column without a name. -/
theorem sagas_selected_otherwise :
    (Offered "books" "saga" "id" ∧ wroteSaga "books" "saga" "id" = [author "id" "bob"] ∧
      foundSagas "books" "saga" "id" = some [author "id" "ada", author "id" "bob"]) ∧
    (Offered "best.books" "saga" "id" ∧ wroteSaga "best.books" "saga" "id" = [author "id" "bob"] ∧
      (ofSagas "best.books" "saga" "id").1 = .error (.unknownRelationship "author" "best")) ∧
    (Offered "books" "long.novels" "id" ∧
      wroteSaga "books" "long.novels" "id" = [author "id" "bob"] ∧
      (ofSagas "books" "long.novels" "id").1 = .error (.unknownRelationship "book" "long")) ∧
    (Offered "books" "saga" "" ∧ wroteSaga "books" "saga" "" = [author "" "bob"] ∧
      foundSagas "books" "saga" "" = some []) ∧
    ¬∀ hop scope key, Offered hop scope key →
      foundSagas hop scope key = some (wroteSaga hop scope key) := by
  have hid : '.' ∉ "id".toList := by decide
  have hnone : '.' ∉ "".toList := by decide
  have htarget : '.' ∉ "author_id".toList := by decide
  have hoffered (hop scope : String) {key : String} (hkey : '.' ∉ key.toList) :
      Offered hop scope key := ⟨loaded hop scope key, relatedScope hop scope key, hkey, htarget⟩
  have hwrote : wroteSaga "books" "saga" "id" = [author "id" "bob"] := by cbv
  have hfound : foundSagas "books" "saga" "id" =
      some [author "id" "ada", author "id" "bob"] := by cbv
  refine ⟨⟨hoffered _ _ hid, hwrote, hfound⟩, ⟨hoffered _ _ hid, by cbv, by cbv⟩,
    ⟨hoffered _ _ hid, by cbv, by cbv⟩, ⟨hoffered _ _ hnone, by cbv, by cbv⟩, fun h => ?_⟩
  have hsame := h "books" "saga" "id" (hoffered _ _ hid)
  rw [hfound, hwrote] at hsame
  simp at hsame

end Sagas
end ModelActions
