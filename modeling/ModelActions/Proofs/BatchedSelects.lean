import ModelActions.Proofs.ExpandedRows

/-!
# One select for each hop

The hops of an expansion are the prefixes of its paths. The hop of a prefix is taken once for all
rows at hand, however many of them there are and however often its paths are repeated: it sends one
select if some row has a key, and none otherwise.
-/
namespace ModelActions
namespace Expansion

/-- Rows after an expansion, whatever the length of its paths. -/
def expandedAlong (registry : Registry) (s : Store) (m : Model) (rows : List Json)
    (paths : List String) : List Json :=
  expanded registry s (depth paths) m rows paths

/-- A hop of an expansion: where it leads, the rows at hand when it is taken, and the paths that
follow it. -/
structure Hop where
  relationship : Relationship
  related : Model
  rows : List Json
  rest : List String

namespace Hop

def keys (hop : Hop) : List Json := Pushdown.keysOf hop.relationship.source hop.rows

def select (hop : Hop) : Select := relatedSelect hop.related hop.relationship hop.keys hop.rest

/-- The related rows, which are at hand for the hops that follow. -/
def found (s : Store) (hop : Hop) : List Json :=
  Expansion.found s hop.relationship hop.related hop.rows

end Hop

/-- The first hop of a name. The groups before it have been attached to the rows at hand. -/
def firstHop (registry : Registry) (s : Store) (m : Model) :
    List (String × List String) → List Json → String → Option Hop
  | [], _, _ => none
  | group :: groups, rows, name =>
    if group.1 = name then
      (lead? registry m name).map fun lead => ⟨lead.1, lead.2, rows, group.2⟩
    else
      firstHop registry s m groups
        (expandedHop registry s (expandedAlong registry s) m rows group) name

/-- The hop of a prefix of the paths of some groups. -/
def hopAt (registry : Registry) (s : Store) :
    Model → List (String × List String) → List Json → List String → Option Hop
  | _, _, _, [] => none
  | m, groups, rows, [name] => firstHop registry s m groups rows name
  | m, groups, rows, name :: next :: names =>
    (firstHop registry s m groups rows name).bind fun hop =>
      hopAt registry s hop.related (groupByHead hop.rest) (hop.found s) (next :: names)

variable {registry : Registry} {s : Store} {m : Model}

/-! ## Hops to spare -/

/-- More hops than the longest path has change nothing. -/
theorem expanded_of_short {hops more : Nat} {rows : List Json} {paths : List String}
    (short : ∀ p ∈ paths, Path.length p ≤ hops) (le : hops ≤ more) :
    expanded registry s more m rows paths = expanded registry s hops m rows paths := by
  induction hops generalizing more m rows paths with
  | zero =>
    obtain rfl := eq_nil_of_short short
    rw [expanded_nil, expanded_nil]
  | succ hops ih =>
    obtain ⟨more, rfl⟩ := Nat.exists_eq_add_of_le' (Nat.le_trans (Nat.le_add_left 1 hops) le)
    apply List.foldl_ext
    intro rows group hgroup
    have hbelow (related : Model) (rows : List Json) :
        expanded registry s more related rows group.2 =
          expanded registry s hops related rows group.2 :=
      ih (short_rests short hgroup) (Nat.le_of_succ_le_succ le)
    simp only [expandedHop, hbelow]

theorem expanded_of_depth_le {hops : Nat} {rows : List Json} {paths : List String}
    (h : depth paths ≤ hops) :
    expanded registry s hops m rows paths = expandedAlong registry s m rows paths :=
  expanded_of_short (fun _ hp => length_le_depth hp) h

/-- The groups of the paths are attached one after the other. -/
theorem expandedAlong_eq (rows : List Json) (paths : List String) :
    expandedAlong registry s m rows paths =
      (groupByHead paths).foldl (expandedHop registry s (expandedAlong registry s) m) rows := by
  rw [← expanded_of_depth_le (Nat.le_succ (depth paths))]
  apply List.foldl_ext
  intro rows group hgroup
  have hbelow (related : Model) (rows : List Json) :
      expanded registry s (depth paths) related rows group.2 =
        expandedAlong registry s related rows group.2 :=
    expanded_of_depth_le (depth_le_iff.2
      (short_rests (fun _ hp => Nat.le_succ_of_le (length_le_depth hp)) hgroup))
  simp only [expandedHop, hbelow]

/-! ## Hops of prefixes -/

/-- Every group leads to a model along paths that exist. -/
def Leading (registry : Registry) (m : Model) (groups : List (String × List String)) : Prop :=
  ∀ g ∈ groups, ∃ r related, registry.Leads m g.1 r related ∧ Valid registry related g.2

theorem firstHop_cons_self {name : String} {hop : Hop}
    (leads : registry.Leads m name hop.relationship hop.related)
    (groups : List (String × List String)) :
    firstHop registry s m ((name, hop.rest) :: groups) hop.rows name = some hop := by
  simp only [firstHop, if_true, lead?_eq_some_iff.2 leads, Option.map_some]

theorem firstHop_cons_of_ne {group : String × List String} {name : String}
    (h : group.1 ≠ name) (groups : List (String × List String)) (rows : List Json) :
    firstHop registry s m (group :: groups) rows name =
      firstHop registry s m groups
        (expandedHop registry s (expandedAlong registry s) m rows group) name := by
  rw [firstHop, if_neg h]

theorem firstHop_eq_none {groups : List (String × List String)} {name : String}
    (h : name ∉ groups.map Prod.fst) (rows : List Json) :
    firstHop registry s m groups rows name = none := by
  induction groups generalizing rows with
  | nil => rfl
  | cons group groups ih =>
    rw [List.map_cons, List.mem_cons, not_or] at h
    rw [firstHop_cons_of_ne (Ne.symm h.1), ih h.2]

/-- Each name of a group has a first hop, which the rests of the group follow. -/
theorem exists_firstHop {groups : List (String × List String)} {name : String}
    (leading : Leading registry m groups) (h : name ∈ groups.map Prod.fst) (rows : List Json) :
    ∃ hop, firstHop registry s m groups rows name = some hop ∧ (name, hop.rest) ∈ groups ∧
      Valid registry hop.related hop.rest := by
  induction groups generalizing rows with
  | nil => contradiction
  | cons group groups ih =>
    by_cases hname : group.1 = name
    · subst hname
      obtain ⟨r, related, leads, valid⟩ := leading group List.mem_cons_self
      let first : Hop := ⟨r, related, rows, group.2⟩
      have hfirst : firstHop registry s m ((group.1, first.rest) :: groups) first.rows group.1 =
          some first := firstHop_cons_self leads groups
      exact ⟨first, hfirst, List.mem_cons_self, valid⟩
    · rw [firstHop_cons_of_ne hname]
      obtain ⟨hop, hhop, hmem, valid⟩ := ih
        (fun g hg => leading g (List.mem_cons_of_mem group hg))
        ((List.mem_cons.1 h).resolve_left (Ne.symm hname)) _
      exact ⟨hop, hhop, List.mem_cons_of_mem group hmem, valid⟩

theorem hopAt_cons {groups : List (String × List String)} {rows : List Json} {name : String}
    {first : Hop} (h : firstHop registry s m groups rows name = some first)
    (names : List String) :
    hopAt registry s m groups rows (name :: names) =
      if names = [] then some first
      else hopAt registry s first.related (groupByHead first.rest) (first.found s) names := by
  cases names with
  | nil => exact h
  | cons next names => rw [hopAt, h, Option.bind_some, if_neg (List.cons_ne_nil next names)]

theorem hopAt_congr {groups groups' : List (String × List String)} {rows rows' : List Json}
    {name : String}
    (h : firstHop registry s m groups rows name = firstHop registry s m groups' rows' name)
    (names : List String) :
    hopAt registry s m groups rows (name :: names) =
      hopAt registry s m groups' rows' (name :: names) := by
  cases names with
  | nil => exact h
  | cons next names => rw [hopAt, hopAt, h]

theorem hopAt_eq_none {groups : List (String × List String)} {name : String}
    (h : name ∉ groups.map Prod.fst) (rows : List Json) (names : List String) :
    hopAt registry s m groups rows (name :: names) = none := by
  cases names with
  | nil => exact firstHop_eq_none h rows
  | cons next names => rw [hopAt, firstHop_eq_none h, Option.bind_none]

theorem cons_prefix_segments_iff {name : String} {names : List String} {p : String} :
    name :: names <+: Path.segments p ↔
      Path.head p = name ∧
        (names = [] ∨ ∃ rest, Path.rest? p = some rest ∧ names <+: Path.segments rest) := by
  cases hrest : Path.rest? p with
  | none =>
    rw [Path.segments_eq, hrest, Option.map_none, Option.getD_none, List.cons_prefix_cons,
      List.prefix_nil]
    simp [eq_comm]
  | some rest =>
    have hnil : names = [] → names <+: Path.segments rest := by
      rintro rfl
      exact List.nil_prefix
    rw [Path.segments_of_rest?_some hrest, List.cons_prefix_cons]
    simpa [eq_comm] using fun _ => hnil

/-- The hops are those of the prefixes of the paths. -/
theorem isSome_hopAt_iff {paths : List String} (valid : Valid registry m paths)
    (rows : List Json) (names : List String) :
    (hopAt registry s m (groupByHead paths) rows names).isSome = true ↔
      names ≠ [] ∧ ∃ p ∈ paths, names <+: Path.segments p := by
  induction names generalizing m paths rows with
  | nil => simp [hopAt]
  | cons name names ih =>
    simp only [cons_prefix_segments_iff, ne_eq, reduceCtorEq, not_false_eq_true, true_and]
    by_cases hname : name ∈ (groupByHead paths).map Prod.fst
    · obtain ⟨first, hfirst, hmem, hvalid⟩ := exists_firstHop (s := s)
        (fun g hg => valid.group hg) hname rows
      rw [hopAt_cons hfirst]
      split
      · next hnil =>
        obtain ⟨p, hp, hhead⟩ := (mem_heads_groupByHead paths).1 hname
        exact iff_of_true rfl ⟨p, hp, hhead, .inl hnil⟩
      · next hne =>
        rw [ih hvalid]
        constructor
        · rintro ⟨-, rest, hrest, hprefix⟩
          obtain ⟨p, hp, hhead, hr⟩ := (mem_rests_iff hmem).1 hrest
          exact ⟨p, hp, hhead, .inr ⟨rest, hr, hprefix⟩⟩
        · rintro ⟨p, hp, hhead, hnil | ⟨rest, hr, hprefix⟩⟩
          · exact absurd hnil hne
          · exact ⟨hne, rest, (mem_rests_iff hmem).2 ⟨p, hp, hhead, hr⟩, hprefix⟩
    · rw [hopAt_eq_none hname]
      refine iff_of_false Bool.false_ne_true ?_
      rintro ⟨p, hp, hhead, -⟩
      exact hname ((mem_heads_groupByHead paths).2 ⟨p, hp, hhead⟩)

/-! ## Hops without rows -/

/-- No rows are found where no row has a key. -/
theorem Hop.found_of_no_keys {hop : Hop} (h : hop.keys = []) : hop.found s = [] := by
  have hfound : hop.found s = s.found (relatedSelect hop.related hop.relationship hop.keys []) :=
    rfl
  rw [hfound, s.found_guard hop.related
    (f := some (.leaf hop.relationship.target .in (.arr hop.keys))) rfl rfl, h]
  have hnone (row : Json) :
      (FilterGroup.leaf hop.relationship.target .in (.arr [])).holds row = false := by
    rw [FilterGroup.holds_leaf]
    rfl
  simp [hnone]

theorem expandedHop_nil (group : String × List String) :
    expandedHop registry s (expandedAlong registry s) m [] group = [] := by
  unfold expandedHop
  split
  · split <;> rfl
  · rfl

theorem rows_firstHop_nil {groups : List (String × List String)} {name : String} {hop : Hop}
    (h : firstHop registry s m groups [] name = some hop) : hop.rows = [] := by
  induction groups with
  | nil => contradiction
  | cons group groups ih =>
    unfold firstHop at h
    split at h
    · obtain ⟨lead, -, rfl⟩ := Option.map_eq_some_iff.1 h
      rfl
    · rw [expandedHop_nil] at h
      exact ih h

theorem Hop.keys_of_no_rows {hop : Hop} (h : hop.rows = []) : hop.keys = [] := by
  rw [keys, h]
  rfl

/-- Below rows that there are not no hop has keys. -/
theorem keys_hopAt_nil {groups : List (String × List String)} {names : List String} {hop : Hop}
    (h : hopAt registry s m groups [] names = some hop) : hop.keys = [] := by
  induction names generalizing m groups with
  | nil => contradiction
  | cons name names ih =>
    cases hfirst : firstHop registry s m groups [] name with
    | none =>
      cases names with
      | nil => rw [hopAt, hfirst] at h; contradiction
      | cons next names => rw [hopAt, hfirst] at h; contradiction
    | some first =>
      have hkeys := Hop.keys_of_no_rows (rows_firstHop_nil hfirst)
      rw [hopAt_cons hfirst] at h
      split at h
      · cases h
        exact hkeys
      · rw [Hop.found_of_no_keys hkeys] at h
        exact ih h

/-! ## The selects that are sent -/

/-- Hops with their prefixes: those with a key to look for, each of them once. -/
structure Covers (registry : Registry) (s : Store) (m : Model)
    (groups : List (String × List String)) (rows : List Json)
    (taken : List (List String × Hop)) : Prop where
  nodup : (taken.map Prod.fst).Nodup
  mem_iff : ∀ names hop, (names, hop) ∈ taken ↔
    hopAt registry s m groups rows names = some hop ∧ hop.keys ≠ []

namespace Covers

theorem nil (rows : List Json) : Covers registry s m [] rows [] where
  nodup := List.nodup_nil
  mem_iff names hop := by
    cases names with
    | nil => simp [hopAt]
    | cons name names => simp [hopAt_eq_none]

variable {name : String} {first : Hop} {groups : List (String × List String)}
  {taken below : List (List String × Hop)}

/-- The hops of the groups that follow a group are those that do not begin with its name. -/
theorem mem_later_iff
    (later : Covers registry s m groups
      (expandedHop registry s (expandedAlong registry s) m first.rows (name, first.rest)) taken)
    (fresh : name ∉ groups.map Prod.fst) (names : List String) (hop : Hop) :
    (names, hop) ∈ taken ↔ names.head? ≠ some name ∧
      hopAt registry s m ((name, first.rest) :: groups) first.rows names = some hop ∧
        hop.keys ≠ [] := by
  rw [later.mem_iff]
  cases names with
  | nil => simp [hopAt]
  | cons other names =>
    by_cases hname : name = other
    · subst hname
      simp [hopAt_eq_none fresh]
    · have hskip : firstHop registry s m ((name, first.rest) :: groups) first.rows other = _ :=
        firstHop_cons_of_ne hname groups first.rows
      simp [hopAt_congr hskip, Ne.symm hname]

/-- Where no row has a key, the hops of a group are not taken. -/
theorem of_no_keys (leads : registry.Leads m name first.relationship first.related)
    (hkeys : first.keys = [])
    (later : Covers registry s m groups
      (expandedHop registry s (expandedAlong registry s) m first.rows (name, first.rest)) taken)
    (fresh : name ∉ groups.map Prod.fst) :
    Covers registry s m ((name, first.rest) :: groups) first.rows taken where
  nodup := later.nodup
  mem_iff names hop := by
    rw [later.mem_later_iff fresh, and_iff_right_iff_imp]
    rintro ⟨hhop, hne⟩ hhead
    obtain ⟨names, rfl⟩ : ∃ rest, names = name :: rest := List.head?_eq_some_iff.1 hhead
    rw [hopAt_cons (firstHop_cons_self leads groups)] at hhop
    split at hhop
    · cases hhop
      exact hne hkeys
    · rw [Hop.found_of_no_keys hkeys] at hhop
      exact hne (keys_hopAt_nil hhop)

/-- Where some row has a key, the first hop of a group is taken before those below it. -/
theorem cons (leads : registry.Leads m name first.relationship first.related)
    (hkeys : first.keys ≠ [])
    (onward : Covers registry s first.related (groupByHead first.rest) (first.found s) below)
    (later : Covers registry s m groups
      (expandedHop registry s (expandedAlong registry s) m first.rows (name, first.rest)) taken)
    (fresh : name ∉ groups.map Prod.fst) :
    Covers registry s m ((name, first.rest) :: groups) first.rows
      (([name], first) :: below.map (fun e => (name :: e.1, e.2)) ++ taken) where
  nodup := by
    have hbelow : ∀ names ∈ below.map Prod.fst, names ≠ [] := by
      rintro _ hmem rfl
      obtain ⟨⟨_, hop⟩, hbelow, rfl⟩ := List.mem_map.1 hmem
      exact absurd ((onward.mem_iff [] hop).1 hbelow).1 (by simp [hopAt])
    have hlater : ∀ names ∈ taken.map Prod.fst, names.head? ≠ some name := by
      intro names hmem
      obtain ⟨⟨_, hop⟩, htaken, rfl⟩ := List.mem_map.1 hmem
      exact ((later.mem_later_iff fresh _ hop).1 htaken).1
    have hnodup := onward.nodup.map (List.cons_injective (a := name))
    rw [List.map_map] at hnodup
    simp only [List.cons_append, List.map_cons, List.map_append, List.map_map, Function.comp_def,
      List.nodup_cons, List.nodup_append, List.mem_append, not_or] at hnodup ⊢
    refine ⟨⟨fun hmem => ?_, fun hmem => hlater _ hmem rfl⟩, hnodup, later.nodup, ?_⟩
    · obtain ⟨e, he, hnames⟩ := List.mem_map.1 hmem
      exact hbelow e.1 (List.mem_map_of_mem he) (List.cons.inj hnames).2
    · rintro _ hmem _ htaken rfl
      obtain ⟨e, -, rfl⟩ := List.mem_map.1 hmem
      exact hlater _ htaken rfl
  mem_iff names hop := by
    cases names with
    | nil => simp [later.mem_iff, hopAt]
    | cons other names =>
      by_cases hname : name = other
      · subst hname
        have htaken : (name :: names, hop) ∉ taken := by
          simp [later.mem_later_iff fresh]
        have hsplit : (name :: names, hop) ∈
            ([name], first) :: below.map (fun e => (name :: e.1, e.2)) ++ taken ↔
              names = [] ∧ hop = first ∨ (names, hop) ∈ below := by
          simp [htaken]
        rw [hsplit, onward.mem_iff, hopAt_cons (firstHop_cons_self leads groups)]
        split
        · next hnil =>
          subst hnil
          constructor
          · rintro (⟨-, rfl⟩ | ⟨hnone, -⟩)
            · exact ⟨rfl, hkeys⟩
            · contradiction
          · rintro ⟨hsome, -⟩
            exact .inl ⟨rfl, (Option.some.inj hsome).symm⟩
        · next hne => rw [or_iff_right (fun h => hne h.1)]
      · simp [later.mem_later_iff fresh, hname, Ne.symm hname]

end Covers

/-! ## The run of an expansion -/

variable {settings : Settings} {world : World}

/-- The operations that hops send. -/
def selectsOf (taken : List (List String × Hop)) : List Operation :=
  taken.map fun e => .select e.2.select

/-- The select of a hop is sent, and then those of the hops below it. -/
def FetchSends (world : World) (registry : Registry) (settings : Settings) (s : Store)
    (hops : Nat) : Prop :=
  ∀ (hop : Hop) {t : Store}, Valid registry hop.related hop.rest →
    (∀ p ∈ hop.rest, Path.length p ≤ hops) → t.rows = s.rows →
    ∃ selection u below,
      (fetch (Store.engine world registry settings) hops hop.related hop.select).runFrom t =
        (.ok selection, u) ∧
      u.rows = s.rows ∧
      selection.result = expandedAlong registry s hop.related (hop.found s) hop.rest ∧
      u.log = t.log ++ .select hop.select :: selectsOf below ∧
      Covers registry s hop.related (groupByHead hop.rest) (hop.found s) below

section
variable {name : String} {hop : Hop}

theorem runFrom_expandHop_of_hop (world : World) (settings : Settings)
    (leads : registry.Leads m name hop.relationship hop.related)
    (answer : Model → Select → Act Store Selection) (t : Store) :
    (expandHop (Store.engine world registry settings) answer m hop.rows (name, hop.rest)).runFrom
        t =
      (if hop.keys = [] then return hop.rows
      else do
        let selection ← answer hop.related hop.select
        return hop.rows.map (attach name hop.relationship selection.result) :
          Act Store (List Json)).runFrom t := by
  rw [runFrom_expandHop world settings leads]
  simp only [List.isEmpty_iff]
  rfl

theorem expandedHop_of_hop (leads : registry.Leads m name hop.relationship hop.related) :
    expandedHop registry s (expandedAlong registry s) m hop.rows (name, hop.rest) =
      if hop.keys = [] then hop.rows
      else hop.rows.map (attach name hop.relationship
        (expandedAlong registry s hop.related (hop.found s) hop.rest)) := by
  rw [expandedHop_of_leads leads]
  simp only [List.isEmpty_iff]
  rfl

end

/-- Groups are attached one after the other, and send what covers them. -/
theorem runFrom_expandGroups_sends {hops : Nat}
    (hfetch : FetchSends world registry settings s hops) {groups : List (String × List String)}
    (nodup : (groups.map Prod.fst).Nodup) (leading : Leading registry m groups)
    (short : ∀ g ∈ groups, ∀ p ∈ g.2, Path.length p ≤ hops) (rows : List Json) {t : Store}
    (ht : t.rows = s.rows) :
    ∃ u taken,
      (expandGroups (Store.engine world registry settings)
        (fetch (Store.engine world registry settings) hops) m groups rows).runFrom t =
          (.ok (groups.foldl (expandedHop registry s (expandedAlong registry s) m) rows), u) ∧
      u.rows = s.rows ∧ u.log = t.log ++ selectsOf taken ∧
      Covers registry s m groups rows taken := by
  induction groups generalizing rows t with
  | nil => exact ⟨t, [], rfl, ht, (List.append_nil t.log).symm, .nil rows⟩
  | cons g groups ih =>
    obtain ⟨name, rest⟩ := g
    obtain ⟨r, related, leads, valid⟩ := leading _ List.mem_cons_self
    obtain ⟨fresh, hnodup⟩ := List.nodup_cons.1 nodup
    obtain ⟨first, rfl, rfl, rfl, rfl⟩ : ∃ first : Hop, first.relationship = r ∧
        first.related = related ∧ first.rows = rows ∧ first.rest = rest :=
      ⟨⟨r, related, rows, rest⟩, rfl, rfl, rfl, rfl⟩
    have hrun := runFrom_expandHop_of_hop world settings leads
      (fetch (Store.engine world registry settings) hops) t
    have hexpanded := expandedHop_of_hop (s := s) leads
    have later (rows : List Json) {t : Store} (ht : t.rows = s.rows) := ih hnodup
      (fun g' hg' => leading g' (List.mem_cons_of_mem _ hg'))
      (fun g' hg' => short g' (List.mem_cons_of_mem _ hg')) rows ht
    by_cases hkeys : first.keys = []
    · rw [if_pos hkeys] at hrun hexpanded
      obtain ⟨u, taken, hrest, hu, hlog, covers⟩ := later first.rows ht
      refine ⟨u, taken, ?_, hu, hlog, .of_no_keys leads hkeys ?_ fresh⟩
      · rw [expandGroups, Act.runFrom_bind_ok hrun, hrest, List.foldl_cons, hexpanded]
      · rwa [hexpanded]
    · rw [if_neg hkeys] at hrun hexpanded
      obtain ⟨selection, t', below, hanswer, ht', hresult, hlog', onward⟩ :=
        hfetch first valid (short _ List.mem_cons_self) ht
      rw [Act.runFrom_bind_ok hanswer, hresult, ← hexpanded] at hrun
      obtain ⟨u, taken, hrest, hu, hlog, covers⟩ := later _ ht'
      refine ⟨u, _, ?_, hu, ?_, .cons leads hkeys onward covers fresh⟩
      · rw [expandGroups, Act.runFrom_bind_ok hrun, hrest, List.foldl_cons]
      · rw [hlog, hlog']
        simp [selectsOf, Function.comp_def]

theorem fetchSends (world : World) (registry : Registry) (settings : Settings) (s : Store)
    (hops : Nat) : FetchSends world registry settings s hops := by
  induction hops with
  | zero =>
    intro hop t valid short ht
    have hrest : hop.rest = [] := eq_nil_of_short short
    refine ⟨Store.selection hop.select (t.found hop.select),
      { t with log := t.log ++ [.select hop.select] }, [], ?_, ht, ?_, rfl, ?_⟩
    · rw [runFrom_fetch _ rfl _ _ (Store.select_of_unsorted rfl), Hop.select, relatedSelect, hrest]
      rfl
    · rw [Store.found_congr ht, hrest, expandedAlong, expanded_nil]
      rfl
    · rw [hrest]
      exact .nil _
  | succ hops ih =>
    intro hop t valid short ht
    have hresult : (Store.selection hop.select (t.found hop.select)).result = hop.found s := by
      rw [Store.found_congr ht]
      rfl
    obtain ⟨u, below, hrun, hu, hlog, covers⟩ := runFrom_expandGroups_sends ih
      (nodup_heads_groupByHead hop.rest) (fun g hg => valid.group hg)
      (fun g hg => short_rests short hg) (hop.found s)
      (t := { t with log := t.log ++ [.select hop.select] }) ht
    rw [← expandedAlong_eq] at hrun
    refine ⟨{ Store.selection hop.select (t.found hop.select) with
      result := expandedAlong registry s hop.related (hop.found s) hop.rest }, u, below, ?_, hu,
      rfl, by rw [hlog, List.append_assoc, List.singleton_append], covers⟩
    rw [runFrom_fetch _ rfl _ _ (Store.select_of_unsorted rfl)]
    split
    · next hexpand =>
      -- without groups nothing was attached, and the selection is the answer itself
      have hrest : hop.rest = [] := List.isEmpty_iff.1 hexpand
      rw [hrest] at hrun ⊢
      cases hrun
      rw [← hresult]
      rfl
    · rw [hresult]
      exact Act.runFrom_bind_ok hrun

/-- An expansion along paths that exist sends selects and nothing else. Its hops are the prefixes of
its paths, and each of them that has a row with a key at hand sends one select, whose keys are
neither null nor repeated. -/
theorem expand_sends_selects (world : World) (settings : Settings) {paths : List String}
    (valid : ∀ p ∈ paths, Query.checkHops registry m (Path.segments p) = .ok ())
    (rows : List Json) (s : Store) :
    (∀ names, (hopAt registry s m (groupByHead paths) rows names).isSome = true ↔
      names ≠ [] ∧ ∃ p ∈ paths, names <+: Path.segments p) ∧
    ∃ rows' u, ∃ taken : List (List String × Hop),
      (expand (Store.engine world registry settings) m rows paths).runFrom s = (.ok rows', u) ∧
      u.rows = s.rows ∧
      u.log = s.log ++ taken.map (fun e => .select e.2.select) ∧
      (taken.map Prod.fst).Nodup ∧
      (∀ names hop, (names, hop) ∈ taken ↔
        hopAt registry s m (groupByHead paths) rows names = some hop ∧
          ∃ row ∈ hop.rows, hop.relationship.keyed row = true) ∧
      ∀ e ∈ taken, ∃ keys, keys ≠ [] ∧ Json.Unrepeated keys ∧
        e.2.select.filters =
          e.2.related.guard (some (.leaf e.2.relationship.target .in (.arr keys))) := by
  obtain ⟨u, taken, hrun, hu, hlog, covers⟩ := runFrom_expandGroups_sends
    (fetchSends world registry settings s (depth paths))
    (nodup_heads_groupByHead paths) (fun g hg => Valid.group valid hg)
    (fun _ hg => short_rests (fun _ hp => Nat.le_succ_of_le (length_le_depth hp)) hg) rows
    (Eq.refl s.rows)
  refine ⟨isSome_hopAt_iff valid rows, _, u, taken, hrun, hu, hlog, covers.nodup,
    fun names hop => ?_, fun e he => ?_⟩
  · rw [covers.mem_iff, Hop.keys, ne_eq, keysOf_eq_nil_iff]
    simp
  · exact ⟨e.2.keys, ((covers.mem_iff e.1 e.2).1 he).2, Json.unrepeated_distinct _, rfl⟩

end Expansion

namespace Blog
open Expansion

/-- A post that stands there twice, and one without an author. -/
def drafts : List Json := [note, note, .obj [("id", .str "q")]]

/-- The authors of the posts and what else they wrote, asked for more than once. -/
def authorPaths : List String := ["author.posts", "author", "author.posts"]

theorem valid_authorPaths :
    ∀ p ∈ authorPaths, Query.checkHops registry post (Path.segments p) = .ok () := by
  have hsegments : Path.segments "author.posts" = ["author", "posts"] := by decide +kernel
  have hauthor : Path.segments "author" = ["author"] := by decide +kernel
  intro p hp
  simp only [authorPaths, List.mem_cons, List.not_mem_nil, or_false] at hp
  rcases hp with rfl | rfl | rfl
  · rw [hsegments]
    rfl
  · rw [hauthor]
    rfl
  · rw [hsegments]
    rfl

/-- The expansion of three rows along three paths sends two selects, since there are two hops. -/
theorem expand_drafts :
    (∀ p ∈ authorPaths, Query.checkHops registry post (Path.segments p) = .ok ()) ∧
    ∃ u, ∃ taken : List (List String × Hop),
      ((expand (Store.engine world registry {}) post drafts authorPaths).runFrom store).2 = u ∧
      u.log = store.log ++ taken.map (fun e => .select e.2.select) ∧
      u.log.map Operation.table = ["users", "posts"] ∧
      (taken.map Prod.fst).Nodup ∧
      ∀ e ∈ taken, e.1 ≠ [] ∧ ∃ p ∈ authorPaths, e.1 <+: Path.segments p := by
  have htables : ((expand (Store.engine world registry {}) post drafts authorPaths).runFrom
      store).2.log.map Operation.table = ["users", "posts"] := by decide +kernel
  obtain ⟨hprefixes, rows, u, taken, hrun, -, hlog, nodup, htaken, -⟩ :=
    expand_sends_selects world {} valid_authorPaths drafts store
  rw [hrun] at htables ⊢
  refine ⟨valid_authorPaths, u, taken, rfl, hlog, htables, nodup, fun e he => ?_⟩
  exact (hprefixes e.1).1 (Option.isSome_iff_exists.2 ⟨e.2, ((htaken e.1 e.2).1 he).1⟩)

end Blog
end ModelActions
