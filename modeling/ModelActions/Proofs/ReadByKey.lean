import ModelActions.Proofs.ReadBack
import ModelActions.Proofs.Visible

/-!
# Reading by key

A read whose input is rows looks them up by the values of their primary key, among the rows that the
model sees. It gives rows without a key back as they are.
-/
namespace ModelActions

/-- What a row has under the primary key of a model. -/
def Model.keyOf (m : Model) (row : Json) : Json := (row.lookup m.primaryKey).getD .null

/-- Whether a row has the key of one of some rows. -/
def Model.sharesKey (m : Model) (rows : List Json) (x : Json) : Bool :=
  rows.any fun row => !(m.keyOf row).isNull && (m.keyOf x).looseEq (m.keyOf row)

section
variable {world : World} {registry : Registry} {settings : Settings} {m : Model}

theorem Model.keyOf_eq (plain : Path.Plain m.primaryKey) {row : Json}
    (hrow : row.isObject = true) : m.keyOf row = (row.get? m.primaryKey).getD .null := by
  rw [keyOf, Json.lookup_of_plain hrow plain]

theorem Pushdown.local_of_plain {column : String} (plain : Path.Plain column) :
    Local m column := .inl (Path.rest?_of_not_mem plain.2)

namespace Query

/-- A request with a filter, a scope or both finds, in the order of the table, the rows that the
model sees and that satisfy what they make together, pushed down. -/
theorem runFrom_select_joined (hm : registry.models.get? m.name = some m) {s u : Store}
    {filters : Json} {scopes : Option Json} {written named : Option FilterGroup}
    {g g' : FilterGroup} (parsed : Filter.parse filters = .ok written)
    (resolved : scopesOf (Store.engine world registry settings) m { filters, scopes } = .ok named)
    (joined : FilterGroup.conjoin written named = some g)
    (pushed : (Pushdown.pushGroup (Store.engine world registry settings) m g).runFrom s =
      (.ok g', u)) (pagination : Option PageRequest) (purpose : Option String) :
    ∃ found t, (select (Store.engine world registry settings) m.name
        { filters, scopes, pagination, purpose }).runFrom s = (.ok found, t) ∧
      t.rows = s.rows ∧
      found.result = Store.page (pagination.map (·.complete settings.defaultPerPage))
        ((s.seen m).filter g'.holds) := by
  let e := Store.engine world registry settings
  let request : Request := { filters, scopes, pagination, purpose }
  let op : Select :=
    { table := m.table, model := m.name, purpose, filters := m.guard (some g')
      pagination := pagination.map (·.complete settings.defaultPerPage), scopes }
  have hmodel : e.model m.name = .ok m := Registry.get_eq_ok.2 hm
  have hbuild : (build e m request).runFrom s = (.ok op, u) := by
    have hscopes : scopesOf e m request = .ok named := resolved
    have hresolve : (Pushdown.resolve e m (FilterGroup.conjoin written named)).runFrom s =
        (.ok (m.guard (some g')), u) := by
      rw [joined]
      exact Act.runFrom_bind_ok pushed
    rw [build, Act.runFrom_ofExcept_bind parsed, Act.runFrom_ofExcept_bind hscopes]
    exact Act.runFrom_bind_ok hresolve
  have hrows : u.rows = s.rows := (Pushdown.pushGroup_readsOnly g).rows_eq pushed
  have hfound : u.found op = (s.seen m).filter g'.holds := by
    have hseen : u.seen m = s.seen m := by rw [Store.seen, hrows, Store.seen]
    rw [← hseen]
    exact u.found_guard m (f := some g') rfl rfl
  refine ⟨Store.selection op (u.found op), { u with log := u.log ++ [.select op] }, ?_, hrows, ?_⟩
  · rw [select, Act.runFrom_ofExcept_bind hmodel, Act.runFrom_bind_ok hbuild, Expansion.execute,
      Expansion.runFrom_fetch _ rfl _ _ (Store.select_of_unsorted rfl)]
    rfl
  · exact congrArg (Store.page op.pagination) hfound

/-- A request with a filter finds, in the order of the table, the rows that the model sees and that
satisfy the filter pushed down. -/
theorem runFrom_select_filters (hm : registry.models.get? m.name = some m) {s u : Store}
    {written : Json} {g g' : FilterGroup} (parsed : Filter.parse written = .ok (some g))
    (pushed : (Pushdown.pushGroup (Store.engine world registry settings) m g).runFrom s =
      (.ok g', u)) (pagination : Option PageRequest) (purpose : Option String) :
    ∃ found t, (select (Store.engine world registry settings) m.name
        { filters := written, pagination, purpose }).runFrom s = (.ok found, t) ∧
      found.result = Store.page (pagination.map (·.complete settings.defaultPerPage))
        ((s.seen m).filter g'.holds) := by
  have hunscoped : scopesOf (Store.engine world registry settings) m
      { filters := written, scopes := none } = .ok none := rfl
  obtain ⟨found, t, hselect, -, hresult⟩ :=
    runFrom_select_joined hm parsed hunscoped rfl pushed pagination purpose
  exact ⟨found, t, hselect, hresult⟩

/-- A request for the rows of which a leaf holds, where the leaf is on the model itself. -/
theorem runFrom_select_leaf (world : World) (settings : Settings)
    (hm : registry.models.get? m.name = some m) (leaf : Condition)
    (here : Pushdown.Local m leaf.path) (nonempty : leaf.path ≠ "") (s : Store) :
    ∃ found t, (select (Store.engine world registry settings) m.name
        (Task.keyRequest leaf)).runFrom s = (.ok found, t) ∧
      found.result = (s.seen m).filter leaf.holds := by
  have pushed : (Pushdown.pushGroup (Store.engine world registry settings) m
      (.and [.condition leaf])).runFrom s = (.ok (.and [.condition leaf]), s) := by
    rw [Pushdown.pushGroup_of_local _ m leaf here]
    rfl
  obtain ⟨found, t, hselect, hresult⟩ := runFrom_select_filters hm
    (Filter.parse_keyRequest leaf nonempty) pushed none (some "read")
  have hholds : (FilterGroup.and [.condition leaf]).holds = leaf.holds :=
    funext fun row => FilterGroup.holds_leaf leaf.path leaf.op leaf.value row
  refine ⟨found, t, hselect, ?_⟩
  rw [hresult, hholds]
  rfl

end Query

namespace Task

section
variable {σ : Type} {ctx : Context σ}

theorem read_of_isRequest {input : Json} {request : Request}
    (h : isRequest ctx.model input = true) (hrequest : Request.ofJson input = .ok request) :
    read ctx input = (do
      let first : PageRequest := { page := some 1, perPage := some 1 }
      let found ← Query.select ctx.toEngine ctx.model.name { request with pagination := some first }
      return firstOf found.result) := by
  unfold read
  dsimp only
  rw [if_pos h, hrequest]
  rfl

theorem read_of_keyless {row : Row} (h : isRequest ctx.model (.obj row) = false)
    (hkey : ((Members.get? row ctx.model.primaryKey).getD .null).isNull = true) :
    read ctx (.obj row) = pure (.obj row) := by
  unfold read
  dsimp only
  rw [if_neg (by simp [h])]
  cases hget : Members.get? row ctx.model.primaryKey with
  | none => rfl
  | some key =>
    rw [hget] at hkey
    cases key with
    | null => rfl
    | _ => cases hkey

theorem read_of_key {row : Row} {key : Json} (h : isRequest ctx.model (.obj row) = false)
    (hkey : Members.get? row ctx.model.primaryKey = some key) (hnull : key.isNull = false) :
    read ctx (.obj row) = (do
      let found ← Query.select ctx.toEngine ctx.model.name
        (keyRequest ⟨ctx.model.primaryKey, .eq, key⟩)
      return firstOf found.result) := by
  unfold read
  dsimp only
  rw [if_neg (by simp [h]), hkey]
  cases key with
  | null => cases hnull
  | _ => rfl

theorem read_of_keys {rows : List Json} (h : keysIn ctx.model rows ≠ []) :
    read ctx (.arr rows) = (do
      let found ← Query.select ctx.toEngine ctx.model.name
        (keyRequest ⟨ctx.model.primaryKey, .in, .arr (keysIn ctx.model rows)⟩)
      return .arr found.result) := by
  have hempty : (keysIn ctx.model rows).isEmpty = false := by simpa using h
  unfold read
  dsimp only
  rw [if_neg (by simp [isRequest, Json.get?]), hempty]
  rfl

theorem read_of_no_keys {rows : List Json} (h : keysIn ctx.model rows = []) :
    read ctx (.arr rows) = pure (.arr rows) := by
  unfold read
  dsimp only
  rw [if_neg (by simp [isRequest, Json.get?]), h]
  rfl

end

theorem keysIn_eq (plain : Path.Plain m.primaryKey) {rows : List Json}
    (objects : ∀ row ∈ rows, row.isObject = true) :
    keysIn m rows = (rows.map m.keyOf).filter (!·.isNull) := by
  induction rows with
  | nil => rfl
  | cons row rows ih =>
    have hrow := m.keyOf_eq plain (objects row List.mem_cons_self)
    have hrows := ih fun row hrow => objects row (List.mem_cons_of_mem _ hrow)
    rw [keysIn] at hrows ⊢
    cases hkey : row.get? m.primaryKey with
    | none =>
      rw [hkey] at hrow
      rw [List.filterMap_cons, hkey, hrows, List.map_cons, hrow]
      rfl
    | some key =>
      rw [hkey] at hrow
      simp [hkey, hrow, hrows, List.filter_cons]

/-- Reading a row with a key finds the first row that the model sees and that has the same key. -/
theorem runFrom_read_row (world : World) (settings : Settings)
    (hm : registry.models.get? m.name = some m)
    (plain : Path.Plain m.primaryKey) (action : String) {row : Row}
    (hrequest : isRequest m (.obj row) = false) (keyed : (m.keyOf (.obj row)).isNull = false)
    (s : Store) :
    ∃ t, (read (Store.context world registry settings m action) (.obj row)).runFrom s =
      (.ok (firstOf ((s.seen m).filter fun x => (m.keyOf x).looseEq (m.keyOf (.obj row)))), t) := by
  have hkeyOf : m.keyOf (.obj row) = ((Json.obj row).get? m.primaryKey).getD .null :=
    m.keyOf_eq plain rfl
  rw [hkeyOf] at keyed ⊢
  rw [Json.get?_obj] at keyed ⊢
  cases hkey : Members.get? row m.primaryKey with
  | none =>
    rw [hkey] at keyed
    cases keyed
  | some key =>
    rw [hkey] at keyed
    obtain ⟨found, t, hselect, hresult⟩ := Query.runFrom_select_leaf world settings hm
      ⟨m.primaryKey, .eq, key⟩ (Pushdown.local_of_plain plain) plain.1 s
    refine ⟨t, ?_⟩
    rw [read_of_key hrequest hkey keyed]
    refine (Act.runFrom_bind_ok hselect).trans ?_
    rw [hresult]
    rfl

/-- Reading rows finds the rows that the model sees and that have one of their keys, unless there
are no keys. -/
theorem runFrom_read_rows (world : World) (settings : Settings)
    (hm : registry.models.get? m.name = some m)
    (plain : Path.Plain m.primaryKey) (action : String) {rows : List Json}
    (objects : ∀ row ∈ rows, row.isObject = true)
    (keyed : ∃ row ∈ rows, (m.keyOf row).isNull = false) (s : Store) :
    ∃ t, (read (Store.context world registry settings m action) (.arr rows)).runFrom s =
      (.ok (.arr ((s.seen m).filter (m.sharesKey rows))), t) := by
  have hkeys := keysIn_eq plain objects
  have hne : keysIn m rows ≠ [] := by
    obtain ⟨row, hrow, hkey⟩ := keyed
    rw [hkeys]
    refine List.ne_nil_of_mem (a := m.keyOf row) (List.mem_filter.2 ⟨List.mem_map_of_mem hrow, ?_⟩)
    simp [hkey]
  obtain ⟨found, t, hselect, hresult⟩ := Query.runFrom_select_leaf world settings hm
    ⟨m.primaryKey, .in, .arr (keysIn m rows)⟩ (Pushdown.local_of_plain plain) plain.1 s
  have hholds (x : Json) : (Condition.mk m.primaryKey .in (.arr (keysIn m rows))).holds x =
      m.sharesKey rows x := by
    have hone : (Condition.mk m.primaryKey .in (.arr (keysIn m rows))).holds x =
        (keysIn m rows).any fun key => (m.keyOf x).looseEq key := rfl
    rw [hone, hkeys, List.any_filter, List.any_map]
    rfl
  refine ⟨t, ?_⟩
  rw [read_of_keys hne]
  refine (Act.runFrom_bind_ok hselect).trans ?_
  rw [hresult, funext hholds]
  rfl

/-- Rows without keys are given back as they are. -/
theorem read_keyless_row (plain : Path.Plain m.primaryKey) (action : String) {row : Row}
    (hrequest : isRequest m (.obj row) = false) (keyless : (m.keyOf (.obj row)).isNull = true) :
    read (Store.context world registry settings m action) (.obj row) = pure (.obj row) := by
  rw [m.keyOf_eq plain rfl, Json.get?_obj] at keyless
  exact read_of_keyless hrequest keyless

theorem read_keyless_rows (plain : Path.Plain m.primaryKey) (action : String)
    {rows : List Json} (objects : ∀ row ∈ rows, row.isObject = true)
    (keyless : ∀ row ∈ rows, (m.keyOf row).isNull = true) :
    read (Store.context world registry settings m action) (.arr rows) = pure (.arr rows) := by
  refine read_of_no_keys ?_
  change keysIn m rows = []
  rw [keysIn_eq plain objects, List.filter_eq_nil_iff]
  intro key hkey
  obtain ⟨row, hrow, rfl⟩ := List.mem_map.1 hkey
  simp [keyless row hrow]

end Task
end
end ModelActions
