import ModelActions.Proofs.Recordings
import ModelActions.Proofs.SeparateHops

/-!
# Rows apart

An expansion fetches the related rows of all rows at once, but each row gets what it gets when it is
expanded alone. Only a row without a key shows whether others were there: beside a row that has one
it gets an empty attachment, and alone it gets none.
-/
namespace ModelActions

/-- No column of a row has the name of a relationship of its model. -/
def Model.ColumnsApart (m : Model) (row : Json) : Prop :=
  ∀ hop r, m.relationships.get? hop = some r → row.get? hop = none

/-- No column of a stored row has the name of a relationship of its model. -/
def Store.ColumnsApart (registry : Registry) (s : Store) : Prop :=
  ∀ {name : String} {m : Model}, registry.models.get? name = some m →
    ∀ row ∈ s.rows m.table, m.ColumnsApart row

namespace Expansion

/-- A member that a relationship attaches to a row without a key. -/
def vacant (registry : Registry) (m : Model) (row : Json) (e : String × Json) : Bool :=
  match lead? registry m e.1 with
  | some (r, _) => !r.keyed row && e.2 == r.joined []
  | none => false

/-- The value of a member, with the rows that a relationship attached there changed. -/
def trimmedValue (registry : Registry) (below : Model → Json → Json) (m : Model)
    (e : String × Json) : Json :=
  match lead? registry m e.1 with
  | some (_, related) => e.2.each (below related)
  | none => e.2

/-- A row of a model without its vacant members, and so are the rows that are attached to it, down
to a depth. -/
def trimmed (registry : Registry) : Nat → Model → Json → Json
  | depth + 1, m, .obj members =>
    .obj ((members.filter fun e => !vacant registry m (.obj members) e).map fun e =>
      (e.1, trimmedValue registry (trimmed registry depth) m e))
  | _, _, row => row

/-- What a row gains from a group of paths when it is expanded together with others. -/
def gain (registry : Registry) (s : Store) (below : Model → List Json → List String → List Json)
    (m : Model) (rows : List Json) (row : Json) (group : String × List String) :
    Option (String × Json) :=
  match lead? registry m group.1 with
  | some (r, related) =>
    if rows.any r.keyed then
      some (group.1, attachment r (below related (found s r related rows) group.2) row)
    else none
  | none => none

/-- What the rows of a model gain along some paths when they are expanded together. -/
def gained (registry : Registry) (s : Store) :
    Nat → Model → List String → List Json → Json → Row
  | 0, _, _, _, _ => []
  | hops + 1, m, paths, rows, row =>
    (groupByHead paths).filterMap (gain registry s (expanded registry s hops) m rows row)

section
variable {registry : Registry} {s : Store} {m related : Model} {name : String} {r : Relationship}
  {below : Model → List Json → List String → List Json} {rows : List Json} {row : Json}

theorem gain_eq_some {group : String × List String} {e : String × Json}
    (h : gain registry s below m rows row group = some e) :
    e.1 = group.1 ∧ ∃ r related, registry.Leads m e.1 r related := by
  unfold gain at h
  split at h
  · next r related hlead =>
    split at h
    · obtain rfl := Option.some.inj h
      exact ⟨rfl, r, related, lead?_eq_some_iff.1 hlead⟩
    · contradiction
  · contradiction

theorem gain_of_any_keyed {group : String × List String}
    (leads : registry.Leads m group.1 r related) (hany : rows.any r.keyed = true) :
    gain registry s below m rows row group =
      some (group.1, attachment r (below related (found s r related rows) group.2) row) := by
  simp only [gain, lead?_eq_some_iff.2 leads, hany, if_true]

theorem gain_of_none_keyed {group : String × List String}
    (leads : registry.Leads m group.1 r related) (hnone : rows.any r.keyed = false) :
    gain registry s below m rows row group = none := by
  simp only [gain, lead?_eq_some_iff.2 leads, hnone, Bool.false_eq_true, if_false]

theorem leads_of_mem_gains {groups : List (String × List String)}
    (h : name ∈ Members.keys (groups.filterMap (gain registry s below m rows row))) :
    ∃ r related, registry.Leads m name r related := by
  obtain ⟨e, he, rfl⟩ := List.mem_map.1 h
  obtain ⟨g, -, hgain⟩ := List.mem_filterMap.1 he
  exact (gain_eq_some hgain).2

theorem keysOf_isEmpty (r : Relationship) (rows : List Json) :
    (Pushdown.keysOf r.source rows).isEmpty = !rows.any r.keyed := by
  rw [Bool.eq_iff_iff, List.isEmpty_iff, keysOf_eq_nil_iff]
  simp

theorem expandedHop_grown (apart : registry.KeysApart)
    (hm : registry.models.get? name = some m) (done : List (String × List String))
    (group : String × List String) :
    expandedHop registry s below m
        (rows.map (grown fun row => done.filterMap (gain registry s below m rows row))) group =
      rows.map (grown fun row =>
        (done ++ [group]).filterMap (gain registry s below m rows row)) := by
  obtain ⟨hop, rest⟩ := group
  cases hlead : lead? registry m hop with
  | none =>
    have hgain (row : Json) : gain registry s below m rows row (hop, rest) = none := by
      simp only [gain, hlead]
    simp [expandedHop, hlead, List.filterMap_append, hgain]
  | some lead =>
    obtain ⟨r, related⟩ := lead
    have leads := lead?_eq_some_iff.1 hlead
    have hsource (row : Json) :
        (grown (fun row => done.filterMap (gain registry s below m rows row)) row).get? r.source =
          row.get? r.source :=
      get?_grown_of_not_relationship (fun _ => leads_of_mem_gains) (apart hm leads).1
    have hkeys := keysOf_map hsource rows
    rw [expandedHop_of_leads leads, found, hkeys, ← found, keysOf_isEmpty]
    cases hany : rows.any r.keyed with
    | false =>
      have hgain (row : Json) : gain registry s below m rows row (hop, rest) = none :=
        gain_of_none_keyed leads hany
      simp [List.filterMap_append, hgain]
    | true =>
      have hgain (row : Json) : gain registry s below m rows row (hop, rest) =
          some (hop, attachment r (below related (found s r related rows) rest) row) :=
        gain_of_any_keyed leads hany
      simp only [Bool.not_true, Bool.false_eq_true, if_false, List.map_map]
      apply List.map_congr_left
      intro row _
      rw [Function.comp_apply, attach_grown]
      simp only [List.filterMap_append, List.filterMap_cons, List.filterMap_nil, hgain,
        attachment_congr (hsource _)]

/-- Rows that are expanded together grow by what each of them gains. -/
theorem expanded_eq_grown (apart : registry.KeysApart)
    (hm : registry.models.get? name = some m) (hops : Nat) (paths : List String)
    (rows : List Json) :
    expanded registry s hops m rows paths =
      rows.map (grown (gained registry s hops m paths rows)) := by
  cases hops with
  | zero => exact (map_grown_nil rows).symm
  | succ hops =>
    suffices h : ∀ done groups : List (String × List String),
        groups.foldl (expandedHop registry s (expanded registry s hops) m)
          (rows.map (grown fun row =>
            done.filterMap (gain registry s (expanded registry s hops) m rows row))) =
        rows.map (grown fun row => (done ++ groups).filterMap
          (gain registry s (expanded registry s hops) m rows row)) by
      have hall := h [] (groupByHead paths)
      simp only [List.filterMap_nil, map_grown_nil, List.nil_append] at hall
      exact hall
    intro done groups
    induction groups generalizing done with
    | nil => simp
    | cons g groups ih =>
      rw [List.foldl_cons, expandedHop_grown apart hm, ih, List.append_assoc, List.singleton_append]

/-! ## Trimmed rows -/

@[simp] theorem trimmed_null (registry : Registry) (depth : Nat) (m : Model) :
    trimmed registry depth m .null = .null := by
  cases depth <;> rfl

theorem attachment_of_not_keyed (h : r.keyed row = false) (rows : List Json) :
    attachment r rows row = r.joined [] := by
  rw [attachment_eq_joined]
  congr 1
  apply List.filter_eq_nil_iff.2
  intro x _ hlinks
  obtain ⟨own, hown, hnull, -⟩ := Relationship.links_iff_source.1 hlinks
  simp [Relationship.keyed, hown, hnull] at h

theorem keyed_grown (apart : registry.KeysApart) (hm : registry.models.get? name = some m)
    {add : Json → Row} (named : ∀ hop ∈ (add row).keys, ∃ r related, registry.Leads m hop r related)
    {hop : String} (leads : registry.Leads m hop r related) :
    r.keyed (grown add row) = r.keyed row := by
  rw [Relationship.keyed, get?_grown_of_not_relationship named (apart hm leads).1,
    Relationship.keyed]

theorem vacant_grown (apart : registry.KeysApart) (hm : registry.models.get? name = some m)
    {add : Json → Row}
    (named : ∀ hop ∈ (add row).keys, ∃ r related, registry.Leads m hop r related) :
    vacant registry m (grown add row) = vacant registry m row := by
  funext e
  unfold vacant
  split
  · next r related hlead =>
    rw [keyed_grown apart hm named (lead?_eq_some_iff.1 hlead)]
  · rfl

theorem lead?_of_columnsApart {members : Row} (columns : m.ColumnsApart (.obj members))
    {e : String × Json} (he : e ∈ members) : lead? registry m e.1 = none := by
  cases hlead : lead? registry m e.1 with
  | none => rfl
  | some lead =>
    have leads := lead?_eq_some_iff.1 hlead
    have hnone : members.get? e.1 = none := columns _ _ leads.relationship
    have hhas := (Members.has_iff_mem_keys members e.1).2 (List.mem_map_of_mem he)
    rw [Members.has, hnone] at hhas
    contradiction

theorem trimmed_grown (apart : registry.KeysApart) (hm : registry.models.get? name = some m)
    {members : Row} (columns : m.ColumnsApart (.obj members)) {add : Json → Row}
    (nodup : (add (.obj members)).keys.Nodup)
    (named : ∀ hop ∈ (add (.obj members)).keys, ∃ r related, registry.Leads m hop r related)
    (depth : Nat) :
    trimmed registry (depth + 1) m (grown add (.obj members)) =
      .obj (members.overwrite (((add (.obj members)).filter fun e =>
        !vacant registry m (.obj members) e).map fun e =>
          (e.1, trimmedValue registry (trimmed registry depth) m e))) := by
  have hlead {e : String × Json} (he : e ∈ members) : lead? registry m e.1 = none :=
    lead?_of_columnsApart columns he
  have hvacant := vacant_grown apart hm named
  have hkept : ∀ e ∈ members, (!vacant registry m (.obj members) e) = true := by
    intro e he
    simp only [vacant, hlead he]
    rfl
  have hfresh : ∀ hop ∈ (add (.obj members)).keys, hop ∉ Members.keys members := by
    intro hop hhop hmem
    obtain ⟨r, related, leads⟩ := named hop hhop
    obtain ⟨e, he, rfl⟩ := List.mem_map.1 hmem
    have hsome := lead?_eq_some_iff.2 leads
    rw [hlead he] at hsome
    contradiction
  have hsame : (members.map fun e =>
      (e.1, trimmedValue registry (trimmed registry depth) m e)) = members := by
    refine (List.map_congr_left fun e he => ?_).trans (List.map_id members)
    rw [trimmedValue, hlead he, id]
  have hfilter := Members.filter_overwrite (fun e => !vacant registry m (.obj members) e) nodup
    hfresh hkept
  have hmap := Members.map_overwrite (trimmedValue registry (trimmed registry depth) m) members
    ((add (.obj members)).filter fun e => !vacant registry m (.obj members) e)
  have hgrown : grown add (.obj members) = .obj (members.overwrite (add (.obj members))) := rfl
  rw [hgrown] at hvacant ⊢
  rw [trimmed, hvacant, hfilter]
  rw [hsame] at hmap
  exact congrArg Json.obj hmap

/-! ## Rows in two batches -/

theorem leads_of_mem_gained {hops : Nat} {paths : List String}
    (h : name ∈ (gained registry s hops m paths rows row).keys) :
    ∃ r related, registry.Leads m name r related := by
  cases hops with
  | zero => contradiction
  | succ hops => exact leads_of_mem_gains h

theorem keys_gains_sublist (groups : List (String × List String)) :
    (Members.keys (groups.filterMap (gain registry s below m rows row))).Sublist
      (groups.map Prod.fst) := by
  induction groups with
  | nil => exact List.Sublist.slnil
  | cons g groups ih =>
    rw [List.filterMap_cons]
    split
    · exact ih.cons g.1
    · next e he =>
      have hname := (gain_eq_some he).1
      rw [Members.keys, List.map_cons, hname]
      exact ih.cons_cons g.1

/-- Nothing is gained twice. -/
theorem nodup_keys_gained (hops : Nat) (paths : List String) :
    (gained registry s hops m paths rows row).keys.Nodup := by
  cases hops with
  | zero => exact List.nodup_nil
  | succ hops => exact (nodup_heads_groupByHead paths).sublist (keys_gains_sublist _)

theorem attachment_expanded (plain : registry.PlainKeys) (apart : registry.KeysApart)
    (objects : s.ObjectRows) (hm : registry.models.get? name = some m) {hop : String}
    (leads : registry.Leads m hop r related) (trans : KeysTransitive registry s m rows)
    (hrow : row ∈ rows) (hops : Nat) (rest : List String) :
    attachment r (expanded registry s hops related (found s r related rows) rest) row =
      r.joined (((s.seen related).filter (r.links row)).map
        (grown (gained registry s hops related rest (s.linked r related rows)))) := by
  have hfound : found s r related rows = s.linked r related rows :=
    found_relatedSelect hm leads plain objects trans []
  rw [hfound, expanded_eq_grown apart leads.model]
  apply attachment_map hrow
  intro x
  exact get?_grown_of_not_relationship (fun _ => leads_of_mem_gained) (apart hm leads).2

/-- What a row without a key gains is vacant. -/
theorem filter_gain_of_not_keyed {g : String × List String}
    (leads : registry.Leads m g.1 r related) (hkeyed : r.keyed row = false) (rows : List Json) :
    (gain registry s below m rows row g).filter (fun e => !vacant registry m row e) = none := by
  cases hany : rows.any r.keyed with
  | false => rw [gain_of_none_keyed leads hany, Option.filter_none]
  | true =>
    have hvacant : vacant registry m row (g.1, r.joined []) = true := by
      have hsame : (r.joined [] == r.joined []) = true := Json.beq_refl (r.joined [])
      simp only [vacant, lead?_eq_some_iff.2 leads, hkeyed, hsame]
      rfl
    rw [gain_of_any_keyed leads hany, attachment_of_not_keyed hkeyed]
    simp [Option.filter, hvacant]

/-- What a row with a key gains is kept, with the attached rows trimmed. -/
theorem trimmed_gain_of_keyed (plain : registry.PlainKeys) (apart : registry.KeysApart)
    (objects : s.ObjectRows) (hm : registry.models.get? name = some m)
    {g : String × List String} (leads : registry.Leads m g.1 r related)
    (trans : KeysTransitive registry s m rows) (hrow : row ∈ rows) (hkeyed : r.keyed row = true)
    (hops : Nat) :
    ((gain registry s (expanded registry s hops) m rows row g).filter
        fun e => !vacant registry m row e).map
        (fun e => (e.1, trimmedValue registry (trimmed registry hops) m e)) =
      some (g.1, r.joined (((s.seen related).filter (r.links row)).map fun x =>
        trimmed registry hops related
          (grown (gained registry s hops related g.2 (s.linked r related rows)) x))) := by
  have hlead := lead?_eq_some_iff.2 leads
  have hkept (value : Json) : (!vacant registry m row (g.1, value)) = true := by
    simp [vacant, hlead, hkeyed]
  rw [gain_of_any_keyed leads (List.any_eq_true.2 ⟨row, hrow, hkeyed⟩),
    attachment_expanded plain apart objects hm leads trans hrow, Option.filter, if_pos (hkept _),
    Option.map_some, trimmedValue, hlead]
  dsimp only
  rw [each_joined (trimmed_null registry hops related), List.map_map]
  · rfl
  · intro x hx
    obtain ⟨y, hy, rfl⟩ := List.mem_map.1 hx
    rw [isObject_grown]
    exact objects _ y (Store.mem_seen.1 (List.mem_filter.1 hy).1).1

/-- How a row is rendered, apart from vacant members, does not depend on the other rows. -/
theorem trimmed_gained (plain : registry.PlainKeys) (apart : registry.KeysApart)
    (objects : s.ObjectRows) (columns : s.ColumnsApart registry) {hops : Nat} {rows' : List Json}
    {paths : List String} (hm : registry.models.get? name = some m)
    (trans : KeysTransitive registry s m rows) (trans' : KeysTransitive registry s m rows')
    (hcolumns : m.ColumnsApart row) (hrow : row ∈ rows) (hrow' : row ∈ rows') :
    trimmed registry hops m (grown (gained registry s hops m paths rows) row) =
      trimmed registry hops m (grown (gained registry s hops m paths rows') row) := by
  -- on the hops; the related rows come in two batches as well, of which both hold those of the row
  induction hops generalizing name m paths rows rows' row with
  | zero => rfl
  | succ hops ih =>
    cases row with
    | obj members =>
      rw [trimmed_grown apart hm hcolumns (nodup_keys_gained _ _) fun _ => leads_of_mem_gained,
        trimmed_grown apart hm hcolumns (nodup_keys_gained _ _) fun _ => leads_of_mem_gained]
      congr 2
      rw [gained, gained, List.filter_filterMap, List.filter_filterMap, List.map_filterMap,
        List.map_filterMap]
      apply List.filterMap_congr
      intro g _
      cases hlead : lead? registry m g.1 with
      | none => simp only [gain, hlead]
      | some lead =>
        obtain ⟨r, related⟩ := lead
        have leads := lead?_eq_some_iff.1 hlead
        cases hkeyed : r.keyed (.obj members) with
        | false =>
          rw [filter_gain_of_not_keyed leads hkeyed, filter_gain_of_not_keyed leads hkeyed]
        | true =>
          rw [trimmed_gain_of_keyed plain apart objects hm leads trans hrow hkeyed,
            trimmed_gain_of_keyed plain apart objects hm leads trans' hrow' hkeyed]
          congr 3
          apply List.map_congr_left
          intro x hx
          obtain ⟨hseen, hlinks⟩ := List.mem_filter.1 hx
          have hlinked {rows : List Json} (hrow : .obj members ∈ rows) :
              x ∈ s.linked r related rows :=
            List.mem_filter.2 ⟨hseen, List.any_eq_true.2 ⟨_, hrow, hlinks⟩⟩
          exact ih leads.model (trans.of_stored leads.model s.mem_rows_of_linked)
            (trans'.of_stored leads.model s.mem_rows_of_linked)
            (columns leads.model x (Store.mem_seen.1 hseen).1) (hlinked hrow) (hlinked hrow')
    | _ => rfl

/-- Rows that are expanded together come out as if each of them were expanded alone, apart from
vacant members, in the rows themselves and in those that are attached to them. -/
theorem expand_apart (world : World) (settings : Settings) (plain : registry.PlainKeys)
    (apart : registry.KeysApart) (objects : s.ObjectRows) (columns : s.ColumnsApart registry)
    (whole : s.WholeKeys registry) (hm : registry.models.get? name = some m)
    (hcolumns : ∀ row ∈ rows, m.ColumnsApart row) (hwhole : ∀ row ∈ rows, m.WholeKeys row)
    {paths : List String}
    (valid : ∀ p ∈ paths, Query.checkHops registry m (Path.segments p) = .ok ()) :
    ∃ together t alone,
      (expand (Store.engine world registry settings) m rows paths).runFrom s = (.ok together, t) ∧
      t.rows = s.rows ∧
      List.Forall₂ (fun row out => ∃ u,
        (expand (Store.engine world registry settings) m [row] paths).runFrom s = (.ok out, u) ∧
          u.rows = s.rows) rows alone ∧
      together.map (trimmed registry (depth paths + 1) m) =
        alone.flatten.map (trimmed registry (depth paths + 1) m) := by
  obtain ⟨t, htogether, ht⟩ := runFrom_expand world settings rows valid s
  refine ⟨_, t, rows.map fun row => expanded registry s (depth paths + 1) m [row] paths, htogether,
    ht, ?_, ?_⟩
  · rw [List.forall₂_map_right_iff, List.forall₂_same]
    exact fun row _ => runFrom_expand world settings [row] valid s
  · have hbatch : KeysTransitive registry s m rows := KeysTransitive.of_wholeKeys whole hwhole
    have halone (row : Json) : expanded registry s (depth paths + 1) m [row] paths =
        [grown (gained registry s (depth paths + 1) m paths [row]) row] :=
      expanded_eq_grown apart hm ..
    have hconcat :
        (rows.map fun row => expanded registry s (depth paths + 1) m [row] paths).flatten =
          rows.map fun row => grown (gained registry s (depth paths + 1) m paths [row]) row := by
      simp only [halone]
      rw [← List.flatMap_def, ← List.map_eq_flatMap]
    rw [expanded_eq_grown apart hm, hconcat, List.map_map, List.map_map]
    apply List.map_congr_left
    intro row hrow
    have hself : KeysTransitive registry s m [row] := by
      apply KeysTransitive.of_wholeKeys whole
      intro x hx
      exact List.mem_singleton.1 hx ▸ hwhole row hrow
    exact trimmed_gained plain apart objects columns hm hbatch hself (hcolumns row hrow) hrow
      List.mem_cons_self

end

end Expansion

/-! ## An example: a post without an author beside one that has an author -/

namespace Blog
open Expansion

/-- A post without an author. -/
def orphan : Json := .obj [("author_id", .null), ("id", .str "q")]

theorem columnsApart {name : String} {m : Model} (hm : registry.models.get? name = some m)
    {row : Json} (hrow : row = ada ∨ row = deletedAda ∨ row = note ∨ row = orphan) :
    m.ColumnsApart row := by
  intro hop r hr
  have hhop : hop = "author" ∨ hop = "posts" := by
    have hmem := Members.mem_of_get? hr
    obtain rfl | rfl := get?_registry hm
    · simp only [post, model, List.mem_singleton, Prod.mk.injEq] at hmem
      exact .inl hmem.1
    · simp only [user, model, List.mem_singleton, Prod.mk.injEq] at hmem
      exact .inr hmem.1
  obtain rfl | rfl := hhop <;> obtain rfl | rfl | rfl | rfl := hrow <;> rfl

theorem store_columnsApart : store.ColumnsApart registry := by
  intro name m hm row hrow
  have hrow := mem_store hrow
  exact columnsApart hm (by tauto)

theorem orphan_wholeKeys : post.WholeKeys orphan := by
  intro hop r v hr hv
  have hm : registry.models.get? "post" = some post := rfl
  obtain ⟨-, hsource, -⟩ | ⟨hpost, -⟩ := get?_relationships hm hr
  · rw [hsource] at hv
    obtain rfl : Json.null = v := Option.some.inj hv
    rfl
  · simp [post, user, model] at hpost

/-- The hypotheses of `expand_apart` on posts of the example. -/
theorem posts_apart : (∀ row ∈ [note, orphan], post.ColumnsApart row) ∧
    ∀ row ∈ [note, orphan], post.WholeKeys row := by
  have hm : registry.models.get? "post" = some post := rfl
  constructor
  · intro row hrow
    exact columnsApart hm (by simp at hrow; tauto)
  · intro row hrow
    rcases List.mem_cons.1 hrow with rfl | hrow
    · exact wholeKeys.stored hm List.mem_cons_self
    · exact List.mem_singleton.1 hrow ▸ orphan_wholeKeys

/-- The note and the orphan come out of one expansion as out of two, apart from vacant members. -/
theorem expand_note_orphan :
    registry.PlainKeys ∧ registry.KeysApart ∧ store.ObjectRows ∧ store.ColumnsApart registry ∧
    store.WholeKeys registry ∧ (∀ row ∈ [note, orphan], post.ColumnsApart row) ∧
    (∀ row ∈ [note, orphan], post.WholeKeys row) ∧
    ∃ together t alone,
      (expand (Store.engine world registry {}) post [note, orphan] ["author.posts"]).runFrom store =
        (.ok together, t) ∧
      t.rows = store.rows ∧
      List.Forall₂ (fun row out => ∃ u,
        (expand (Store.engine world registry {}) post [row] ["author.posts"]).runFrom store =
          (.ok out, u) ∧ u.rows = store.rows) [note, orphan] alone ∧
      together.map (trimmed registry 3 post) = alone.flatten.map (trimmed registry 3 post) := by
  have hm : registry.models.get? "post" = some post := rfl
  have hsegments : Path.segments "author.posts" = ["author", "posts"] := by decide +kernel
  have hdepth : depth ["author.posts"] = 2 := by decide +kernel
  have hvalid : ∀ p ∈ ["author.posts"],
      Query.checkHops registry post (Path.segments p) = .ok () := by
    intro p hp
    rw [List.mem_singleton.1 hp, hsegments]
    rfl
  have h := expand_apart world {} plainKeys keysApart objectRows store_columnsApart wholeKeys hm
    posts_apart.1 posts_apart.2 hvalid
  rw [hdepth] at h
  exact ⟨plainKeys, keysApart, objectRows, store_columnsApart, wholeKeys, posts_apart.1,
    posts_apart.2, h⟩

def noteWithAuthor : Json :=
  .obj [("author", ada), ("author_id", .str "a"), ("id", .str "p")]

def orphanWithNull : Json :=
  .obj [("author", .null), ("author_id", .null), ("id", .str "q")]

/-- Beside a note with an author the orphan gets null for its author, and alone it gets none. -/
theorem orphan_beside_note :
    Registry.ofSpecs specs = .ok registry ∧ registry.PlainKeys ∧ registry.KeysApart ∧
    store.ObjectRows ∧ store.ColumnsApart registry ∧ store.WholeKeys registry ∧
    (∀ row ∈ [note, orphan], post.ColumnsApart row) ∧
    (∀ row ∈ [note, orphan], post.WholeKeys row) ∧
    Query.checkHops registry post (Path.segments "author") = .ok () ∧
    ∃ t u v,
      (expand (Store.engine world registry {}) post [note, orphan] ["author"]).runFrom store =
        (.ok [noteWithAuthor, orphanWithNull], t) ∧
      (expand (Store.engine world registry {}) post [note] ["author"]).runFrom store =
        (.ok [noteWithAuthor], u) ∧
      (expand (Store.engine world registry {}) post [orphan] ["author"]).runFrom store =
        (.ok [orphan], v) ∧
      [noteWithAuthor, orphanWithNull] ≠ [noteWithAuthor] ++ [orphan] := by
  have hsegments : Path.segments "author" = ["author"] := by decide +kernel
  have hvalid : Valid registry post ["author"] := by
    intro p hp
    rw [List.mem_singleton.1 hp, hsegments]
    rfl
  obtain ⟨t, htogether, -⟩ := runFrom_expand world {} [note, orphan] hvalid store
  obtain ⟨u, hnote, -⟩ := runFrom_expand world {} [note] hvalid store
  obtain ⟨v, horphan, -⟩ := runFrom_expand world {} [orphan] hvalid store
  have hboth : expanded registry store (depth ["author"] + 1) post [note, orphan] ["author"] =
      [noteWithAuthor, orphanWithNull] := by cbv
  have hfirst : expanded registry store (depth ["author"] + 1) post [note] ["author"] =
      [noteWithAuthor] := by cbv
  have hsecond : expanded registry store (depth ["author"] + 1) post [orphan] ["author"] =
      [orphan] := by cbv
  rw [hboth] at htogether
  rw [hfirst] at hnote
  rw [hsecond] at horphan
  refine ⟨loaded, plainKeys, keysApart, objectRows, store_columnsApart, wholeKeys, posts_apart.1,
    posts_apart.2, hvalid _ List.mem_cons_self, t, u, v, htogether, hnote, horphan, ?_⟩
  simp [orphanWithNull, orphan]

end Blog
end ModelActions
