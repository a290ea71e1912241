import ModelActions.Proofs.BatchedExpansion

/-!
# Expanded rows

What an expansion against a row store makes of rows, as a function of the rows and of the tables.
The expansion itself succeeds along paths that exist, gives these rows and changes no table.
-/
namespace ModelActions
namespace Expansion

/-- The rows that the select of a hop finds. -/
def found (s : Store) (r : Relationship) (related : Model) (rows : List Json) : List Json :=
  s.found (relatedSelect related r (Pushdown.keysOf r.source rows) [])

/-- The relationship of a name, and the model that it leads to. -/
def lead? (registry : Registry) (m : Model) (name : String) : Option (Relationship × Model) :=
  match m.relationships.get? name with
  | some r => (registry.models.get? r.related).map (r, ·)
  | none => none

/-- Rows after one hop, given how the related rows are expanded. -/
def expandedHop (registry : Registry) (s : Store)
    (below : Model → List Json → List String → List Json) (m : Model) (rows : List Json)
    (group : String × List String) : List Json :=
  match lead? registry m group.1 with
  | some (r, related) =>
    if (Pushdown.keysOf r.source rows).isEmpty then rows
    else rows.map (attach group.1 r (below related (found s r related rows) group.2))
  | none => rows

/-- Rows after an expansion that is at most `hops` hops deep. -/
def expanded (registry : Registry) (s : Store) :
    Nat → Model → List Json → List String → List Json
  | 0, _, rows, _ => rows
  | hops + 1, m, rows, paths =>
    (groupByHead paths).foldl (expandedHop registry s (expanded registry s hops) m) rows

section
variable {registry : Registry} {s : Store} {m related : Model} {name : String} {r : Relationship}

theorem lead?_eq_some_iff :
    lead? registry m name = some (r, related) ↔ registry.Leads m name r related := by
  constructor
  · intro h
    unfold lead? at h
    split at h
    · next r' hr =>
      obtain ⟨related', hrelated, he⟩ := Option.map_eq_some_iff.1 h
      rw [Prod.mk.injEq] at he
      obtain ⟨rfl, rfl⟩ := he
      exact ⟨hr, hrelated⟩
    · contradiction
  · intro leads
    simp only [lead?, leads.relationship, leads.model, Option.map_some]

theorem expandedHop_of_leads {below : Model → List Json → List String → List Json}
    (leads : registry.Leads m name r related) (rows : List Json) (rest : List String) :
    expandedHop registry s below m rows (name, rest) =
      if (Pushdown.keysOf r.source rows).isEmpty then rows
      else rows.map (attach name r (below related (found s r related rows) rest)) := by
  simp only [expandedHop, lead?_eq_some_iff.2 leads]

/-- Along no paths nothing changes. -/
@[simp] theorem expanded_nil (registry : Registry) (s : Store) (hops : Nat) (m : Model)
    (rows : List Json) : expanded registry s hops m rows [] = rows := by
  cases hops <;> rfl

variable {settings : Settings} {world : World}

/-- Selects for related rows are answered with the expanded rows. -/
def FetchExpands (world : World) (registry : Registry) (settings : Settings) (s : Store)
    (hops : Nat) : Prop :=
  ∀ {related : Model} {r : Relationship} {rest : List String} {t : Store} (rows : List Json),
    Valid registry related rest → (∀ p ∈ rest, Path.length p ≤ hops) → t.rows = s.rows →
    ∃ selection u,
      (fetch (Store.engine world registry settings) hops related
        (relatedSelect related r (Pushdown.keysOf r.source rows) rest)).runFrom t =
          (.ok selection, u) ∧
      u.rows = s.rows ∧
      selection.result = expanded registry s hops related (found s r related rows) rest

theorem runFrom_expandGroups {hops : Nat} (hfetch : FetchExpands world registry settings s hops)
    {groups : List (String × List String)}
    (valid : ∀ g ∈ groups, ∃ r related, registry.Leads m g.1 r related ∧
      Valid registry related g.2)
    (short : ∀ g ∈ groups, ∀ p ∈ g.2, Path.length p ≤ hops) (rows : List Json) {t : Store}
    (ht : t.rows = s.rows) :
    ∃ u,
      (expandGroups (Store.engine world registry settings)
        (fetch (Store.engine world registry settings) hops) m groups rows).runFrom t =
          (.ok (groups.foldl (expandedHop registry s (expanded registry s hops) m) rows), u) ∧
      u.rows = s.rows := by
  induction groups generalizing rows t with
  | nil => exact ⟨t, rfl, ht⟩
  | cons g groups ih =>
    obtain ⟨r, related, leads, hvalid⟩ := valid g List.mem_cons_self
    have hhop : ∃ u,
        (expandHop (Store.engine world registry settings)
          (fetch (Store.engine world registry settings) hops) m rows g).runFrom t =
            (.ok (expandedHop registry s (expanded registry s hops) m rows g), u) ∧
        u.rows = s.rows := by
      rw [runFrom_expandHop world settings leads, expandedHop_of_leads leads]
      split
      · exact ⟨t, rfl, ht⟩
      · obtain ⟨selection, u, hrun, hu, hresult⟩ :=
          hfetch rows hvalid (short g List.mem_cons_self) ht
        rw [Act.runFrom_bind_ok hrun, hresult]
        exact ⟨u, rfl, hu⟩
    obtain ⟨u, hrun, hu⟩ := hhop
    rw [expandGroups, Act.runFrom_bind_ok hrun, List.foldl_cons]
    apply ih _ _ _ hu
    · exact fun g' hg' => valid g' (List.mem_cons_of_mem g hg')
    · exact fun g' hg' => short g' (List.mem_cons_of_mem g hg')

/-- A select along paths that exist is answered with the expanded rows of what it finds, if the
selects of its hops are. -/
theorem runFrom_fetch_expanded {hops : Nat}
    (below : ∀ k < hops, FetchExpands world registry settings s k) {op : Select}
    {answered : Selection} (hselect : s.select world op = some answered)
    (valid : Valid registry m op.expand) (short : ∀ p ∈ op.expand, Path.length p ≤ hops)
    {t : Store} (ht : t.rows = s.rows) :
    ∃ u,
      (fetch (Store.engine world registry settings) hops m op).runFrom t =
        (.ok { answered with
          result := expanded registry s hops m answered.result op.expand }, u) ∧
      u.rows = s.rows := by
  rw [runFrom_fetch _ rfl _ _ ((Store.select_congr ht world op).trans hselect)]
  cases hexpand : op.expand with
  | nil =>
    refine ⟨{ t with log := t.log ++ [.select op] }, ?_, ht⟩
    rw [expanded_nil]
    rfl
  | cons p paths =>
    rw [hexpand] at valid short
    cases hops with
    | zero => cases eq_nil_of_short short
    | succ hops =>
      obtain ⟨u, hrun, hu⟩ := runFrom_expandGroups (below hops hops.lt_succ_self)
        (fun g hg => valid.group hg) (fun g hg => short_rests short hg) answered.result
        (t := { t with log := t.log ++ [.select op] }) ht
      rw [List.isEmpty_cons, if_neg Bool.false_ne_true]
      exact ⟨u, Act.runFrom_bind_ok hrun, hu⟩

theorem fetchExpands (hops : Nat) : FetchExpands world registry settings s hops := by
  induction hops using Nat.strongRecOn with
  | ind hops ih =>
    intro related r rest t rows valid short ht
    have hselect : s.select world
        (relatedSelect related r (Pushdown.keysOf r.source rows) rest) = some _ :=
      Store.select_of_unsorted rfl
    obtain ⟨u, hrun, hu⟩ := runFrom_fetch_expanded ih hselect valid short ht
    exact ⟨_, u, hrun, hu, rfl⟩

/-- An expansion along paths that exist gives the expanded rows and changes no table. -/
theorem runFrom_expand (world : World) (settings : Settings) (rows : List Json)
    {paths : List String} (valid : Valid registry m paths) (s : Store) :
    ∃ u,
      (expand (Store.engine world registry settings) m rows paths).runFrom s =
        (.ok (expanded registry s (depth paths + 1) m rows paths), u) ∧
      u.rows = s.rows :=
  runFrom_expandGroups (fetchExpands (depth paths)) (fun _ hg => valid.group hg)
    (fun _ hg => short_rests (fun _ hp => Nat.le_succ_of_le (length_le_depth hp)) hg) rows rfl

end

end Expansion
end ModelActions
