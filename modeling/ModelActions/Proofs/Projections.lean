import ModelActions.Proofs.AllOrNothing
import ModelActions.Proofs.BuiltSelects
import ModelActions.Proofs.SeparateRows
import ModelActions.Proofs.SummarizedSelections

/-!
# Projected rows

The columns that a request asks for are cut out before the rows are expanded. Nothing is lost by
that: the columns by which the first hops are matched are kept, so that the same related rows are
found for the same rows, and what comes out is the result without a projection, cut down to the
columns that were kept and the names of the first hops.
-/
namespace ModelActions

namespace Json

theorem get?_overwrite_project (ms : Members Json) (columns : List String) (row : Json)
    (key : String) :
    (ms.overwrite (columns.filterMap fun c => (row.get? c).map (c, ·))).get? key =
      (if key ∈ columns then row.get? key else none).or (ms.get? key) := by
  induction columns generalizing ms with
  | nil => rfl
  | cons column columns ih =>
    cases hcolumn : row.get? column with
    | none =>
      rw [List.filterMap_cons_none (by rw [hcolumn]; rfl), ih]
      by_cases hkey : key = column
      · subst hkey
        simp [hcolumn]
      · simp [hkey]
    | some value =>
      rw [List.filterMap_cons_some (b := (column, value)) (by rw [hcolumn]; rfl),
        Members.overwrite, List.foldl_cons]
      refine (ih _).trans ?_
      rw [Members.get?_insert]
      by_cases hkey : key = column
      · subst hkey
        rw [if_pos rfl, if_pos List.mem_cons_self, hcolumn]
        split <;> rfl
      · simp [hkey]

/-- A projected row has the columns of the row that were asked for. -/
theorem get?_project (columns : List String) (row : Json) (key : String) :
    (row.project columns).get? key = if key ∈ columns then row.get? key else none := by
  have h := get?_overwrite_project [] columns row key
  rwa [Members.get?_nil, Option.or_none] at h

theorem project_eq_sorted (columns : List String) (row : Json) :
    ∃ ms : Members Json, row.project columns = .obj ms ∧ ms.Sorted := by
  have hempty : Members.Sorted ([] : Members Json) := List.Pairwise.nil
  exact ⟨_, rfl, hempty.overwrite _⟩

/-- A projected row is determined by its columns. -/
theorem project_eq {columns : List String} {row : Json} {ms : Members Json} (sorted : ms.Sorted)
    (h : ∀ key, ms.get? key = if key ∈ columns then row.get? key else none) :
    row.project columns = .obj ms := by
  obtain ⟨ms', hms', sorted'⟩ := project_eq_sorted columns row
  rw [hms', sorted'.ext sorted fun key => ?_]
  rw [h, ← get?_project, hms', get?_obj]

/-- Columns that a row does not have make no difference to its projection. -/
theorem project_congr {columns columns' : List String} {row : Json}
    (h : ∀ key, (row.get? key).isSome = true → (key ∈ columns ↔ key ∈ columns')) :
    row.project columns = row.project columns' := by
  obtain ⟨ms, hms, sorted⟩ := project_eq_sorted columns' row
  rw [hms]
  refine project_eq sorted fun key => ?_
  rw [← get?_obj, ← hms, get?_project]
  cases hkey : row.get? key with
  | none => simp
  | some value => simp only [h key (by rw [hkey]; rfl)]

end Json

namespace Expansion
variable {registry : Registry} {s : Store} {m related : Model} {name : String}
  {r : Relationship} {kept : List String}

/-- Attaching to a projected row is projecting the row that was attached to. -/
theorem attach_project (hname : name ∈ kept) (hsource : r.source ∈ kept) (related : List Json)
    {row : Json} (object : row.isObject = true) :
    attach name r related (row.project kept) = (attach name r related row).project kept := by
  have hkey : (row.project kept).get? r.source = row.get? r.source := by
    rw [Json.get?_project, if_pos hsource]
  have hattached := attachment_congr hkey related
  obtain ⟨ms, hms, sorted⟩ := Json.project_eq_sorted kept row
  rw [hms] at hattached ⊢
  refine (Json.project_eq (sorted.insert name _) fun key => ?_).symm
  by_cases hkey : key = name
  · subst hkey
    rw [Members.get?_insert_self, if_pos hname, get?_attach_self _ _ _ object, hattached]
  · rw [Members.get?_insert_of_ne ms _ hkey, get?_attach_of_ne r related row hkey,
      ← Json.get?_project, hms, Json.get?_obj]

theorem isObject_attach (name : String) (r : Relationship) (related : List Json) (row : Json) :
    (attach name r related row).isObject = row.isObject := by
  cases row <;> rfl

/-- The columns that the first hop of a group reads and writes are kept. -/
def KeepsGroup (m : Model) (kept : List String) (name : String) : Prop :=
  name ∈ kept ∧ ∀ r, m.relationships.get? name = some r → r.source ∈ kept

variable {below : Model → List Json → List String → List Json} {rows : List Json}

theorem isObject_expandedHop (objects : ∀ row ∈ rows, row.isObject = true)
    (group : String × List String) :
    ∀ row ∈ expandedHop registry s below m rows group, row.isObject = true := by
  unfold expandedHop
  split
  · split
    · exact objects
    · intro row hrow
      obtain ⟨row', hrow', rfl⟩ := List.mem_map.1 hrow
      rw [isObject_attach, objects row' hrow']
  · exact objects

theorem expandedHop_project {group : String × List String} (keeps : KeepsGroup m kept group.1)
    (objects : ∀ row ∈ rows, row.isObject = true) :
    expandedHop registry s below m (rows.map (Json.project kept)) group =
      (expandedHop registry s below m rows group).map (Json.project kept) := by
  cases hlead : lead? registry m group.1 with
  | none => simp only [expandedHop, hlead]
  | some lead =>
    obtain ⟨r, related⟩ := lead
    have leads := lead?_eq_some_iff.1 hlead
    have hsource := keeps.2 r leads.relationship
    have hkeys : Pushdown.keysOf r.source (rows.map (Json.project kept)) = _ :=
      keysOf_map (fun row => by rw [Json.get?_project, if_pos hsource]) rows
    rw [expandedHop_of_leads leads, expandedHop_of_leads leads, found, hkeys, ← found]
    split
    · rfl
    · rw [List.map_map, List.map_map]
      apply List.map_congr_left
      intro row hrow
      exact attach_project keeps.1 hsource _ (objects row hrow)

/-- A projection that keeps the columns of the first hops is not noticed by an expansion. -/
theorem expanded_project {paths : List String}
    (keeps : ∀ p ∈ paths, KeepsGroup m kept (Path.head p))
    (objects : ∀ row ∈ rows, row.isObject = true) (hops : Nat) :
    expanded registry s hops m (rows.map (Json.project kept)) paths =
      (expanded registry s hops m rows paths).map (Json.project kept) := by
  cases hops with
  | zero => rfl
  | succ hops =>
    have hgroups : ∀ g ∈ groupByHead paths, KeepsGroup m kept g.1 := by
      intro g hg
      obtain ⟨p, hp, hhead⟩ := (mem_heads_groupByHead paths).1 (List.mem_map_of_mem hg)
      exact hhead ▸ keeps p hp
    rw [expanded, expanded]
    generalize groupByHead paths = groups at hgroups
    induction groups generalizing rows with
    | nil => rfl
    | cons g groups ih =>
      rw [List.foldl_cons, List.foldl_cons,
        expandedHop_project (hgroups g List.mem_cons_self) objects]
      exact ih (isObject_expandedHop objects g) fun g' hg' =>
        hgroups g' (List.mem_cons_of_mem g hg')

end Expansion
namespace Store
variable {world : World} {s : Store} {op : Select}

theorem select_of_columns (whole : op.columns = none) (columns : List String) :
    s.select world { op with columns := some columns } =
      (s.select world op).map fun found =>
        { found with
          result := found.result.map (Json.project columns)
          operation := { op with columns := some columns } } := by
  rw [select, select, Option.map_map]
  refine congrArg₂ Option.map (funext fun rows => ?_) rfl
  simp only [selection, whole, Function.comp_apply]

/-- Without a projection a select finds rows of its table. -/
theorem mem_rows_of_select (whole : op.columns = none) {found : Selection}
    (h : s.select world op = some found) {row : Json} (hrow : row ∈ found.result) :
    row ∈ s.rows op.table := by
  obtain ⟨rows, hsorted, rfl⟩ := Option.map_eq_some_iff.1 h
  have hpage : row ∈ page op.pagination rows := by
    simp only [selection, whole] at hrow
    exact hrow
  have hmem : row ∈ rows := by
    unfold page at hpage
    split at hpage
    · exact List.mem_of_mem_drop (List.mem_of_mem_take hpage)
    · exact hpage
  exact List.mem_of_mem_filter ((Sorter.sortRows_perm hsorted).mem_iff.1 hmem)

end Store

namespace Query
open Expansion
variable {world : World} {registry : Registry} {settings : Settings} {s : Store} {m : Model}
  {columns paths : List String}

/-- What a projection leaves of a row: the columns that were asked for and, for the first hop of
each path, its name and the column by which it is matched. -/
def kept (m : Model) (columns paths : List String) : List String :=
  columns ++ paths.flatMap fun p =>
    Path.head p :: ((m.relationships.get? (Path.head p)).map (·.source)).toList

theorem mem_keepExpandKeys_iff {key : String} :
    key ∈ keepExpandKeys m columns paths ↔
      key ∈ columns ∨ ∃ p ∈ paths, ∃ r, m.relationships.get? (Path.head p) = some r ∧
        r.source = key := by
  induction paths generalizing columns with
  | nil => simp [keepExpandKeys]
  | cons p paths ih =>
    rw [keepExpandKeys, List.foldl_cons, ← keepExpandKeys, ih]
    cases hr : m.relationships.get? (Path.head p) with
    | none => simp [hr]
    | some r =>
      have hadded : key ∈ (if r.source ∈ columns then columns else columns ++ [r.source]) ↔
          key ∈ columns ∨ r.source = key := by
        split
        · next hmem => simpa using fun hkey : r.source = key => hkey ▸ hmem
        · simp [eq_comm]
      simp [hadded, hr, or_assoc]

theorem mem_kept_iff {key : String} :
    key ∈ kept m columns paths ↔
      key ∈ columns ∨ ∃ p ∈ paths, key = Path.head p ∨
        ∃ r, m.relationships.get? (Path.head p) = some r ∧ r.source = key := by
  simp [kept]

theorem keepsGroup_kept (m : Model) (columns : List String) {p : String} (hp : p ∈ paths) :
    KeepsGroup m (kept m columns paths) (Path.head p) :=
  ⟨mem_kept_iff.2 (.inr ⟨p, hp, .inl rfl⟩), fun r hr =>
    mem_kept_iff.2 (.inr ⟨p, hp, .inr ⟨r, hr, rfl⟩⟩)⟩

/-- The projection of a request is that of its select, and shows nowhere else. -/
theorem build_projected {σ : Type} (e : Engine σ) (m : Model) (request : Request)
    (columns : Option (List String)) :
    build e m { request with columns } = (do
      let op ← build e m request
      return { op with columns := columns.map (keepExpandKeys m · request.expand) }) := by
  have hscopes : scopesOf e m { request with columns } = scopesOf e m request := rfl
  simp only [build, hscopes, bind_assoc, pure_bind]

theorem columns_of_build {σ : Type} {e : Engine σ} {request : Request} {op : Select} {s t : σ}
    (h : (build e m request).runFrom s = (.ok op, t)) :
    op.table = m.table ∧
      op.columns = request.columns.map (keepExpandKeys m · request.expand) := by
  obtain ⟨written, _, -, h⟩ := Act.runFrom_bind_eq_ok.1 h
  obtain ⟨named, _, -, h⟩ := Act.runFrom_bind_eq_ok.1 h
  obtain ⟨filters, _, -, h⟩ := Act.runFrom_bind_eq_ok.1 h
  obtain ⟨_, _, -, h⟩ := Act.runFrom_bind_eq_ok.1 h
  obtain ⟨joins, _, -, h⟩ := Act.runFrom_bind_eq_ok.1 h
  cases h
  exact ⟨rfl, rfl⟩

/-- No column of a row that is found stands in the way of what is attached to it, so that the
columns that were kept for the expansion are all that there is to keep. -/
theorem project_keepExpandKeys {row : Json} (apart : m.ColumnsApart row)
    (related : ∀ p ∈ paths, ∃ r, m.relationships.get? (Path.head p) = some r) :
    row.project (keepExpandKeys m columns paths) = row.project (kept m columns paths) := by
  apply Json.project_congr
  intro key hkey
  rw [mem_keepExpandKeys_iff, mem_kept_iff]
  refine or_congr_right ⟨fun ⟨p, hp, hsource⟩ => ⟨p, hp, .inr hsource⟩, ?_⟩
  rintro ⟨p, hp, rfl | hsource⟩
  · obtain ⟨r, hr⟩ := related p hp
    rw [apart _ r hr] at hkey
    contradiction
  · exact ⟨p, hp, hsource⟩

/-- A select along paths that exist finds the same with a projection as without, cut down to the
columns that are kept. -/
theorem execute_projected {world : World} (settings : Settings) {op : Select} {answered : Selection}
    (hselect : s.select world op = some answered) (whole : op.columns = none)
    (valid : Valid registry m op.expand)
    (objects : ∀ row ∈ s.rows op.table, row.isObject = true)
    (apart : ∀ row ∈ s.rows op.table, m.ColumnsApart row) (columns : List String) :
    let projected := { op with columns := some (keepExpandKeys m columns op.expand) }
    ∃ found t t',
      (execute (Store.engine world registry settings) m op).runFrom s = (.ok found, t) ∧
      (execute (Store.engine world registry settings) m projected).runFrom s =
        (.ok { found with
          result := found.result.map (Json.project (kept m columns op.expand))
          operation := projected }, t') := by
  intro projected
  have below (k : Nat) (_ : k < depth op.expand) : FetchExpands world registry settings s k :=
    fetchExpands k
  have hselect' : s.select world projected = some _ :=
    (Store.select_of_columns whole _).trans (congrArg _ hselect)
  obtain ⟨t, hrun, -⟩ := runFrom_fetch_expanded below hselect valid
    (fun _ hp => length_le_depth hp) (Eq.refl s.rows)
  obtain ⟨t', hrun', -⟩ := runFrom_fetch_expanded below hselect' valid
    (fun _ hp => length_le_depth hp) (Eq.refl s.rows)
  have related : ∀ p ∈ op.expand, ∃ r, m.relationships.get? (Path.head p) = some r := by
    intro p hp
    obtain ⟨r, _, leads, -⟩ := checkHops_cons_eq_ok.1 (Path.segments_eq p ▸ valid p hp)
    exact ⟨r, leads.relationship⟩
  have hfound : answered.result.map (Json.project (keepExpandKeys m columns op.expand)) =
      answered.result.map (Json.project (kept m columns op.expand)) :=
    List.map_congr_left fun row hrow =>
      project_keepExpandKeys (apart row (Store.mem_rows_of_select whole hselect hrow)) related
  have hexpanded : expanded registry s (depth op.expand) m
      (answered.result.map (Json.project (kept m columns op.expand))) op.expand = _ :=
    expanded_project (fun p hp => keepsGroup_kept m columns hp)
      (fun row hrow => objects row (Store.mem_rows_of_select whole hselect hrow)) (depth op.expand)
  dsimp only at hrun'
  rw [hfound, hexpanded] at hrun'
  exact ⟨_, t, t', hrun, hrun'⟩

/-- The sort does not see the columns, and crashes with a projection where it does without. -/
theorem execute_projected_of_none {world : World} (settings : Settings) {op : Select}
    (hnone : s.select world op = none) (whole : op.columns = none) (columns : List String) :
    let projected := { op with columns := some columns }
    ∃ t t',
      (execute (Store.engine world registry settings) m op).runFrom s = (.error .crashed, t) ∧
      (execute (Store.engine world registry settings) m projected).runFrom s =
        (.error .crashed, t') := by
  intro projected
  have hnone' : s.select world projected = none :=
    (Store.select_of_columns whole _).trans (congrArg _ hnone)
  exact ⟨_, _, runFrom_fetch_of_none _ rfl _ m hnone, runFrom_fetch_of_none _ rfl _ m hnone'⟩

/-- A request finds the same with a projection as without: as many rows in the same order, with the
same total, each of them cut down to the columns that were asked for, to those by which the first
hops of its paths are matched, and to what is attached under the names of these hops. -/
theorem select_projected (world : World) {specs : List ModelSpec}
    (loaded : Registry.ofSpecs specs = .ok registry) (settings : Settings)
    (objects : s.ObjectRows) (apart : s.ColumnsApart registry) {model : String}
    (hm : registry.models.get? model = some m) (request : Request) (columns : List String) :
    let whole := (select (Store.engine world registry settings) model
      { request with columns := none }).runFrom s
    let projected := (select (Store.engine world registry settings) model
      { request with columns := some columns }).runFrom s
    (∀ err, whole.1 = .error err → projected.1 = .error err) ∧
    ∀ found, whole.1 = .ok found →
      ∃ found', projected.1 = .ok found' ∧ found'.total = found.total ∧
        List.Forall₂ (fun row row' => row'.isObject = true ∧ ∀ key, row'.get? key =
          if key ∈ kept m columns request.expand then row.get? key else none)
          found.result found'.result := by
  have hget : (Store.engine world registry settings).model model = .ok m := Registry.get_eq_ok.2 hm
  have hsame := build_projected (Store.engine world registry settings) m
    { request with columns := none } (some columns)
  rw [select, Act.runFrom_ofExcept_bind hget, select, Act.runFrom_ofExcept_bind hget]
  rcases hbuild : (build (Store.engine world registry settings) m
    { request with columns := none }).runFrom s with ⟨err | op, t⟩
  · have hbuild' : (build (Store.engine world registry settings) m
        { request with columns := some columns }).runFrom s = (.error err, t) := by
      rw [hsame, Act.runFrom_bind_error hbuild]
    rw [Act.runFrom_bind_error hbuild, Act.runFrom_bind_error hbuild']
    exact ⟨fun _ h => h, by rintro _ ⟨⟩⟩
  · obtain ⟨htable, hcolumns⟩ := columns_of_build hbuild
    obtain ⟨-, -, hexpand⟩ := of_build hbuild
    have hbuild' : (build (Store.engine world registry settings) m
        { request with columns := some columns }).runFrom s =
          (.ok { op with columns := some (keepExpandKeys m columns op.expand) }, t) := by
      rw [hsame, Act.runFrom_bind_ok hbuild, hexpand]
      rfl
    -- the build may have sent subqueries, which change no table
    have hrows : t.rows = s.rows :=
      (build_sends (Store.engine world registry settings) m _).readsOnly.rows_eq hbuild
    have valid : Valid registry m op.expand :=
      valid_of_checkExpandPath (Registry.get?_name_of_ofSpecs loaded hm) (accepted_of_build hbuild)
    rw [Act.runFrom_bind_ok hbuild, Act.runFrom_bind_ok hbuild']
    cases hselect : t.select world op with
    | none =>
      obtain ⟨u, u', hrun, hrun'⟩ := execute_projected_of_none settings hselect hcolumns
        (keepExpandKeys m columns op.expand)
      rw [hrun, hrun']
      exact ⟨fun _ h => h, by rintro _ ⟨⟩⟩
    | some answered =>
      obtain ⟨found, u, u', hrun, hrun'⟩ := execute_projected settings hselect hcolumns valid
        (fun row hrow => objects op.table row (hrows ▸ hrow))
        (fun row hrow => apart hm row (htable ▸ hrows ▸ hrow)) columns
      rw [hrun, hrun', hexpand]
      refine ⟨by rintro _ ⟨⟩, ?_⟩
      rintro _ ⟨⟩
      refine ⟨_, rfl, rfl, ?_⟩
      rw [List.forall₂_map_right_iff, List.forall₂_same]
      exact fun row _ => ⟨rfl, Json.get?_project _ row⟩

end Query

namespace Blog

/-- The posts with their authors and what these wrote. -/
def withAuthors (columns : Option (List String)) : Request :=
  { columns, expand := ["author.posts"] }

def selectPosts (columns : Option (List String)) : Except Error Selection :=
  ((Query.select (Store.engine world registry {}) "post" (withAuthors columns)).runFrom store).1

def columnsFound (columns : Option (List String)) : Option (List (List String)) :=
  (selectPosts columns).toOption.map fun found =>
    found.result.map fun row => (row.members?.getD []).keys

/-- A note of which no column was asked for keeps the key of its author, who is attached whole. -/
theorem select_untitled :
    Registry.ofSpecs specs = .ok registry ∧ store.ObjectRows ∧ store.ColumnsApart registry ∧
    columnsFound none = some [["author", "author_id", "id"]] ∧
    columnsFound (some ["title"]) = some [["author", "author_id"]] ∧
    ∃ found found', selectPosts none = .ok found ∧ selectPosts (some ["title"]) = .ok found' ∧
      List.Forall₂ (fun row row' => row'.isObject = true ∧ ∀ key, row'.get? key =
        if key ∈ Query.kept post ["title"] ["author.posts"] then row.get? key else none)
        found.result found'.result := by
  have hm : registry.models.get? "post" = some post := rfl
  have hcolumns : columnsFound none = some [["author", "author_id", "id"]] := by decide +kernel
  have htitled : columnsFound (some ["title"]) = some [["author", "author_id"]] := by
    decide +kernel
  have hprojected := (Query.select_projected world loaded {} objectRows store_columnsApart hm
    (withAuthors none) ["title"]).2
  cases hwhole : selectPosts none with
  | error err =>
    rw [columnsFound, hwhole] at hcolumns
    cases hcolumns
  | ok found =>
    obtain ⟨found', hfound', -, hrows⟩ := hprojected found hwhole
    exact ⟨loaded, objectRows, store_columnsApart, hcolumns, htitled, found, found', rfl, hfound',
      hrows⟩

end Blog
end ModelActions
