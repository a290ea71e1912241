import Mathlib.Data.List.Nodup
import ModelActions.Proofs.Growth
import ModelActions.Query.Build

/-!
# Expansion is a join

Against a row store an expansion along paths that exist succeeds, keeps every row in its place and
attaches at every depth what a join of the visible rows would, although it sends one select for all
rows of a level.
-/
namespace ModelActions
namespace Expansion

theorem mem_rests_iff {paths : List String} {name : String} {rests : List String}
    (h : (name, rests) ∈ groupByHead paths) {rest : String} :
    rest ∈ rests ↔ ∃ p ∈ paths, Path.head p = name ∧ Path.rest? p = some rest := by
  rw [← asks_groupByHead]
  constructor
  · intro hr
    exact ⟨rests, h, hr⟩
  · rintro ⟨rests', h', hr⟩
    have he := List.inj_on_of_nodup_map (nodup_heads_groupByHead paths) h h' rfl
    rw [Prod.mk.injEq] at he
    rwa [he.2]

/-- The rests of a group are what follows its name in the paths. -/
theorem hopsOf_rests {paths : List String} {name : String} {rests : List String}
    (h : (name, rests) ∈ groupByHead paths) : hopsOf rests = after name (hopsOf paths) := by
  funext hops
  rw [eq_iff_iff]
  constructor
  · rintro ⟨rest, hrest, rfl⟩
    obtain ⟨p, hp, rfl, hr⟩ := (mem_rests_iff h).1 hrest
    exact ⟨Path.segments_ne_nil rest, p, hp, Path.segments_of_rest?_some hr⟩
  · rintro ⟨hne, p, hp, hs⟩
    cases hr : Path.rest? p with
    | none =>
      rw [Path.segments_of_rest?_none hr, List.cons.injEq] at hs
      exact absurd hs.2.symm hne
    | some rest =>
      rw [Path.segments_of_rest?_some hr, List.cons.injEq] at hs
      exact ⟨rest, (mem_rests_iff h).2 ⟨p, hp, hs.1, hr⟩, hs.2⟩

theorem head_of_hopsOf {paths : List String} {name : String} {rest : List String}
    (h : hopsOf paths (name :: rest)) : name ∈ (groupByHead paths).map Prod.fst := by
  obtain ⟨p, hp, hs⟩ := h
  rw [Path.segments_eq, List.cons.injEq] at hs
  exact (mem_heads_groupByHead paths).2 ⟨p, hp, hs.1⟩

theorem checkHops_cons_eq_ok {registry : Registry} {m : Model} {name : String}
    {hops : List String} :
    Query.checkHops registry m (name :: hops) = .ok () ↔
      ∃ r related, registry.Leads m name r related ∧
        Query.checkHops registry related hops = .ok () := by
  rw [Query.checkHops, bind_eq_ok]
  simp only [bind_eq_ok, Model.relationship_eq_ok, Registry.get_eq_ok]
  constructor
  · rintro ⟨r, hr, related, hrelated, h⟩
    exact ⟨r, related, ⟨hr, hrelated⟩, h⟩
  · rintro ⟨r, related, leads, h⟩
    exact ⟨r, leads.relationship, related, leads.model, h⟩

variable {registry : Registry} {settings : Settings} {world : World} {s : Store}

/-- The hops of some paths of a model exist. -/
def Valid (registry : Registry) (m : Model) (paths : List String) : Prop :=
  ∀ p ∈ paths, Query.checkHops registry m (Path.segments p) = .ok ()

theorem Valid.group {m : Model} {paths : List String} (valid : Valid registry m paths)
    {name : String} {rests : List String} (h : (name, rests) ∈ groupByHead paths) :
    ∃ r related, registry.Leads m name r related ∧ Valid registry related rests := by
  have hname := (mem_heads_groupByHead paths).1 (List.mem_map_of_mem h)
  obtain ⟨p, hp, hhead⟩ := hname
  have hhops := valid p hp
  rw [Path.segments_eq, hhead] at hhops
  obtain ⟨r, related, leads, -⟩ := checkHops_cons_eq_ok.1 hhops
  refine ⟨r, related, leads, fun rest hrest => ?_⟩
  obtain ⟨q, hq, hhead', hr⟩ := (mem_rests_iff h).1 hrest
  have hhops' := valid q hq
  rw [Path.segments_of_rest?_some hr, hhead'] at hhops'
  obtain ⟨r', related', leads', hrest'⟩ := checkHops_cons_eq_ok.1 hhops'
  obtain rfl := Option.some.inj (leads.relationship.symm.trans leads'.relationship)
  obtain rfl := Option.some.inj (leads.model.symm.trans leads'.model)
  exact hrest'

/-- Selects for related rows are answered with the linked rows, which have grown. -/
def FetchGrows (world : World) (registry : Registry) (settings : Settings) (s : Store)
    (hops : Nat) : Prop :=
  ∀ {m related : Model} {name hop : String} {r : Relationship} {rows : List Json}
    {rest : List String} {t : Store}, registry.models.get? name = some m →
    registry.Leads m hop r related → KeysTransitive registry s m rows →
    Valid registry related rest → (∀ p ∈ rest, Path.length p ≤ hops) → t.rows = s.rows →
    ∃ below selection u,
      (fetch (Store.engine world registry settings) hops related
        (relatedSelect related r (Pushdown.keysOf r.source rows) rest)).runFrom t =
          (.ok selection, u) ∧
      u.rows = s.rows ∧ selection.result = (s.linked r related rows).map (grown below) ∧
      Grows registry s related (s.linked r related rows) (hopsOf rest) below

/-- Rows are expanded by growing. -/
def ExpandGrows (world : World) (registry : Registry) (settings : Settings) (s : Store)
    (hops : Nat) : Prop :=
  ∀ {m : Model} {name : String} {rows : List Json} {paths : List String} {t : Store},
    registry.models.get? name = some m → KeysTransitive registry s m rows →
    Valid registry m paths → (∀ p ∈ paths, Path.length p ≤ hops + 1) → t.rows = s.rows →
    ∃ add u,
      (expandGroups (Store.engine world registry settings)
        (fetch (Store.engine world registry settings) hops) m (groupByHead paths) rows).runFrom t =
          (.ok (rows.map (grown add)), u) ∧
      u.rows = s.rows ∧ Grows registry s m rows (hopsOf paths) add

variable {m : Model} {name : String} {rows : List Json} {hops : Nat}

/-- A hop does nothing where no row has a key, and fetches the related rows of all rows at once
otherwise. -/
theorem runFrom_expandHop (world : World) (settings : Settings) {group : String × List String}
    {r : Relationship} {related : Model} (leads : registry.Leads m group.1 r related)
    (answer : Model → Select → Act Store Selection) (rows : List Json) (t : Store) :
    (expandHop (Store.engine world registry settings) answer m rows group).runFrom t =
      (if (Pushdown.keysOf r.source rows).isEmpty then return rows
      else do
        let selection ← answer related
          (relatedSelect related r (Pushdown.keysOf r.source rows) group.2)
        return rows.map (attach group.1 r selection.result) : Act Store (List Json)).runFrom t := by
  have hr : (Act.ofExcept (m.relationship group.1)).runFrom t = (.ok r, t) := by
    rw [Act.runFrom_ofExcept, Model.relationship_eq_ok.2 leads.relationship]
  have hrelated : (Act.ofExcept ((Store.engine world registry settings).model r.related)).runFrom
      t = (.ok related, t) := by
    rw [Act.runFrom_ofExcept, Engine.model, Store.engine, Registry.get_eq_ok.2 leads.model]
  rw [expandHop, Act.runFrom_bind_ok hr, Act.runFrom_bind_ok hrelated]

/-- One hop attaches the next group. -/
theorem Partly.step (apart : registry.KeysApart)
    (hfetch : FetchGrows world registry settings s hops)
    (hm : registry.models.get? name = some m) (trans : KeysTransitive registry s m rows)
    {done : List (String × List String)} {add : Json → Row}
    (h : Partly registry s m rows done add) {g : String × List String}
    (fresh : g.1 ∉ done.map Prod.fst) {r : Relationship} {related : Model}
    (leads : registry.Leads m g.1 r related) (valid : Valid registry related g.2)
    (short : ∀ p ∈ g.2, Path.length p ≤ hops) {t : Store} (ht : t.rows = s.rows) :
    ∃ add' u,
      (expandHop (Store.engine world registry settings)
        (fetch (Store.engine world registry settings) hops) m (rows.map (grown add)) g).runFrom t =
          (.ok (rows.map (grown add')), u) ∧
      u.rows = s.rows ∧ Partly registry s m rows (done ++ [g]) add' := by
  obtain ⟨hsource, htarget⟩ := apart hm leads
  have hkeys : Pushdown.keysOf r.source (rows.map (grown add)) = Pushdown.keysOf r.source rows := by
    simp only [Pushdown.keysOf, List.filterMap_map, Function.comp_def,
      h.get?_of_not_relationship hsource]
  rw [runFrom_expandHop world settings leads, hkeys]
  cases hempty : Pushdown.keysOf r.source rows with
  | nil => exact ⟨add, t, rfl, ht, h.idle fresh leads ((keysOf_eq_nil_iff rows).1 hempty)⟩
  | cons key keys =>
    have keyed : ∃ row ∈ rows, r.keyed row = true := by
      by_contra hnone
      have hunkeyed : ∀ row ∈ rows, r.keyed row = false := by simpa using hnone
      rw [(keysOf_eq_nil_iff rows).2 hunkeyed] at hempty
      contradiction
    obtain ⟨below, selection, u, hrun, hu, hresult, grows⟩ :=
      hfetch hm leads trans valid short ht
    rw [hempty] at hrun
    rw [List.isEmpty_cons, if_neg Bool.false_ne_true, Act.runFrom_bind_ok hrun]
    refine ⟨_, u, ?_, hu, h.joined fresh leads keyed hsource htarget grows⟩
    rw [Act.runFrom_pure, List.map_map, hresult]
    exact Prod.ext (congrArg Except.ok (List.map_congr_left fun row _ => attach_grown ..)) rfl

/-- The groups of some paths are attached one after the other. -/
theorem Partly.run (apart : registry.KeysApart)
    (hfetch : FetchGrows world registry settings s hops)
    (hm : registry.models.get? name = some m) (trans : KeysTransitive registry s m rows)
    {groups done : List (String × List String)} {add : Json → Row}
    (h : Partly registry s m rows done add)
    (nodup : ((done ++ groups).map Prod.fst).Nodup)
    (valid : ∀ g ∈ groups, ∃ r related, registry.Leads m g.1 r related ∧
      Valid registry related g.2)
    (short : ∀ g ∈ groups, ∀ p ∈ g.2, Path.length p ≤ hops) {t : Store} (ht : t.rows = s.rows) :
    ∃ add' u,
      (expandGroups (Store.engine world registry settings)
        (fetch (Store.engine world registry settings) hops) m groups
        (rows.map (grown add))).runFrom t = (.ok (rows.map (grown add')), u) ∧
      u.rows = s.rows ∧ Partly registry s m rows (done ++ groups) add' := by
  induction groups generalizing done add t with
  | nil => exact ⟨add, t, rfl, ht, by rwa [List.append_nil]⟩
  | cons g groups ih =>
    obtain ⟨r, related, leads, hvalid⟩ := valid g List.mem_cons_self
    have fresh : g.1 ∉ done.map Prod.fst := by
      rw [List.map_append, List.map_cons, List.nodup_append] at nodup
      exact fun hd => nodup.2.2 g.1 hd g.1 List.mem_cons_self rfl
    obtain ⟨add₁, t₁, hrun, ht₁, h₁⟩ := h.step apart hfetch hm trans fresh leads hvalid
      (short g List.mem_cons_self) ht
    have happend : done ++ [g] ++ groups = done ++ g :: groups := by simp
    obtain ⟨add', u, hrun', hu, h'⟩ := ih h₁ (by rwa [happend])
      (fun g' hg' => valid g' (List.mem_cons_of_mem _ hg'))
      (fun g' hg' => short g' (List.mem_cons_of_mem _ hg')) ht₁
    refine ⟨add', u, ?_, hu, by rwa [← happend]⟩
    rw [expandGroups, Act.runFrom_bind_ok hrun, hrun']

theorem Partly.grows {paths : List String} {add : Json → Row}
    (h : Partly registry s m rows (groupByHead paths) add) :
    Grows registry s m rows (hopsOf paths) add := by
  refine .level (fun name rest hhops => ?_) fun row name hmem => ?_
  · obtain ⟨g, hg, rfl⟩ := List.mem_map.1 (head_of_hopsOf hhops)
    rw [← hopsOf_rests hg]
    exact h.attaches g hg
  · obtain ⟨p, hp, rfl⟩ := (mem_heads_groupByHead paths).1 (h.named row name hmem)
    exact ⟨_, p, hp, Path.segments_eq p⟩

theorem short_rests {paths : List String} (short : ∀ p ∈ paths, Path.length p ≤ hops + 1)
    {g : String × List String} (hg : g ∈ groupByHead paths) :
    ∀ p ∈ g.2, Path.length p ≤ hops := by
  intro rest hrest
  obtain ⟨p, hp, -, hr⟩ := (mem_rests_iff hg).1 hrest
  have hlength := short p hp
  rw [Path.length, Path.segments_of_rest?_some hr, List.length_cons] at hlength
  rw [Path.length]
  omega

theorem expandGrows (apart : registry.KeysApart)
    (hfetch : FetchGrows world registry settings s hops) :
    ExpandGrows world registry settings s hops := by
  intro m name rows paths t hm trans valid short ht
  obtain ⟨add, u, hrun, hu, h⟩ := (Partly.nil registry s m rows).run apart hfetch hm trans
    (by simpa using nodup_heads_groupByHead paths) (fun g hg => valid.group hg)
    (fun g hg => short_rests short hg) ht
  rw [map_grown_nil] at hrun
  exact ⟨add, u, hrun, hu, h.grows⟩

theorem eq_nil_of_short {paths : List String} (short : ∀ p ∈ paths, Path.length p ≤ 0) :
    paths = [] := by
  apply List.eq_nil_iff_forall_not_mem.2
  intro p hp
  have hpos := List.length_pos_of_ne_nil (Path.segments_ne_nil p)
  exact Nat.not_le_of_gt hpos (short p hp)

/-- Along no paths nothing is gained. -/
theorem Grows.of_nil (registry : Registry) (s : Store) (m : Model) (rows : List Json) :
    Grows registry s m rows (hopsOf []) fun _ => [] := by
  refine .level (fun name rest h => ?_) fun _ _ h => by contradiction
  obtain ⟨p, hp, -⟩ := h
  contradiction

/-- A store answers a select with an echo of it, so that the paths are those of the select. -/
theorem runFrom_fetch (e : Engine Store) (he : e.host = Store.host world) (hops : Nat) (m : Model)
    {op : Select} {t : Store} {found : Selection} (hfound : t.select world op = some found) :
    (fetch e hops m op).runFrom t =
      (if op.expand.isEmpty then return found
      else match hops with
        | 0 => throw .echoTooLong
        | hops + 1 => do
          return { found with
            result := ← expandGroups e (fetch e hops) m (groupByHead op.expand)
              found.result } : Act Store Selection).runFrom
        { t with log := t.log ++ [.select op] } := by
  obtain ⟨rows, -, rfl⟩ := Option.map_eq_some_iff.1 hfound
  have hperform : (e.host.perform (.select op)).runFrom t =
      (.ok (.selected (Store.selection op rows)), { t with log := t.log ++ [.select op] }) := by
    rw [he, Store.runFrom_perform_select world hfound]
  cases hops with
  | zero =>
    rw [fetch, Act.runFrom_bind_ok hperform]
    rfl
  | succ hops =>
    rw [fetch, Act.runFrom_bind_ok hperform]
    rfl

/-- A select whose sort crashes is the last operation of an expansion. -/
theorem runFrom_fetch_of_none (e : Engine Store) (he : e.host = Store.host world) (hops : Nat)
    (m : Model) {op : Select} {t : Store} (hnone : t.select world op = none) :
    (fetch e hops m op).runFrom t = (.error .crashed, { t with log := t.log ++ [.select op] }) := by
  have hperform := Store.runFrom_perform_select_none world hnone
  rw [← he] at hperform
  cases hops with
  | zero => rw [fetch, Act.runFrom_bind_error hperform]
  | succ hops => rw [fetch, Act.runFrom_bind_error hperform]

theorem exists_select_of_fetch {e : Engine Store} (he : e.host = Store.host world) {hops : Nat}
    {m : Model} {op : Select} {found : Selection} {t u : Store}
    (h : (fetch e hops m op).runFrom t = (.ok found, u)) :
    ∃ answered, t.select world op = some answered := by
  cases hselect : t.select world op with
  | some answered => exact ⟨answered, rfl⟩
  | none =>
    rw [runFrom_fetch_of_none e he hops m hselect] at h
    cases h

theorem fetchGrows (plain : registry.PlainKeys) (apart : registry.KeysApart)
    (objects : s.ObjectRows) (hops : Nat) : FetchGrows world registry settings s hops := by
  induction hops with
  | zero =>
    intro m related name hop r rows rest t hm leads trans valid short ht
    obtain rfl := eq_nil_of_short short
    have hfound := found_relatedSelect hm leads plain objects trans []
    rw [← Store.found_congr ht] at hfound
    refine ⟨_, _, _, runFrom_fetch _ rfl 0 related (Store.select_of_unsorted rfl), ht, ?_,
      Grows.of_nil ..⟩
    rw [result_relatedSelect, hfound, map_grown_nil]
  | succ hops ih =>
    intro m related name hop r rows rest t hm leads trans valid short ht
    have hfound := found_relatedSelect hm leads plain objects trans rest
    rw [← Store.found_congr ht] at hfound
    rw [runFrom_fetch _ rfl _ _ (Store.select_of_unsorted rfl), result_relatedSelect, hfound]
    by_cases hrest : rest = []
    · subst hrest
      refine ⟨_, _, _, rfl, ht, ?_, Grows.of_nil ..⟩
      rw [result_relatedSelect, map_grown_nil]
    · have hexpand : (relatedSelect related r (Pushdown.keysOf r.source rows) rest).expand.isEmpty =
          false := by simpa [relatedSelect] using hrest
      obtain ⟨below, u, hrun, hu, grows⟩ := expandGrows apart ih leads.model
        (trans.of_stored leads.model s.mem_rows_of_linked) valid short (t := { t with
          log := t.log ++ [.select (relatedSelect related r (Pushdown.keysOf r.source rows) rest)]
        }) ht
      rw [hexpand, if_neg Bool.false_ne_true]
      refine ⟨below, {
        Store.selection (relatedSelect related r (Pushdown.keysOf r.source rows) rest)
          (s.linked r related rows) with
        result := (s.linked r related rows).map (grown below) }, u, ?_, hu, rfl, grows⟩
      exact Act.runFrom_bind_ok hrun

theorem depth_le_iff {paths : List String} {most : Nat} :
    depth paths ≤ most ↔ ∀ p ∈ paths, Path.length p ≤ most := by
  have hfold (lengths : List Nat) (n : Nat) :
      lengths.foldl max n ≤ most ↔ n ≤ most ∧ ∀ k ∈ lengths, k ≤ most := by
    induction lengths generalizing n with
    | nil => simp
    | cons k lengths ih => rw [List.foldl_cons, ih, Nat.max_le, List.forall_mem_cons, and_assoc]
  rw [depth, hfold]
  simp

theorem length_le_depth {paths : List String} {p : String} (hp : p ∈ paths) :
    Path.length p ≤ depth paths := depth_le_iff.1 (Nat.le_refl _) p hp

/-- An expansion along paths that exist succeeds, changes no table, keeps every row in its place and
lets it grow along the paths. -/
theorem expand_grows (plain : registry.PlainKeys) (apart : registry.KeysApart)
    (objects : s.ObjectRows) (hm : registry.models.get? name = some m)
    (trans : KeysTransitive registry s m rows) {paths : List String}
    (valid : ∀ p ∈ paths, Query.checkHops registry m (Path.segments p) = .ok ()) :
    ∃ add u,
      (expand (Store.engine world registry settings) m rows paths).runFrom s =
        (.ok (rows.map (grown add)), u) ∧
      u.rows = s.rows ∧ Grows registry s m rows (hopsOf paths) add :=
  expandGrows apart (fetchGrows plain apart objects _) hm trans valid
    (fun _ hp => Nat.le_succ_of_le (length_le_depth hp)) rfl

/-- The note gains its author, and the author the notes. -/
theorem expand_note_author_posts :
    ∃ add u,
      (expand (Store.engine Blog.world Blog.registry {}) Blog.post [Blog.note]
        ["author.posts"]).runFrom Blog.store = (.ok ([Blog.note].map (grown add)), u) ∧
      u.rows = Blog.store.rows ∧
      Grows Blog.registry Blog.store Blog.post [Blog.note] (hopsOf ["author.posts"]) add := by
  have hm : Blog.registry.models.get? "post" = some Blog.post := by rfl
  have hsegments : Path.segments "author.posts" = ["author", "posts"] := by decide +kernel
  have hhops : Query.checkHops Blog.registry Blog.post ["author", "posts"] = .ok () := by rfl
  refine expand_grows Blog.plainKeys Blog.keysApart Blog.objectRows hm
    (Blog.keysTransitive hm [Blog.note] (by simp)) fun p hp => ?_
  rw [List.mem_singleton.1 hp, hsegments, hhops]

end Expansion
end ModelActions
