import ModelActions.Proofs.ActionSteps
import ModelActions.Proofs.CheckedInputs
import ModelActions.Proofs.ReadByKey
import ModelActions.Proofs.WrittenRows

/-!
# Updated rows

An update writes its data over the rows that its model sees and that satisfy its conditions, and
over no others. Where all rows have keys of their own, it answers with just these rows.
-/
namespace ModelActions

/-- The data of an update as they are written. -/
def Model.written (m : Model) (world : World) (data : Row) : Row :=
  match m.timeAt world with
  | some now => data.insert "updated_at" (.str now)
  | none => data

/-- The update of the rows that a model sees and that satisfy a filter. -/
def Model.change (m : Model) (g : FilterGroup) (written : Row) : Update where
  table := m.table
  model := m.name
  data := written
  conditions := m.guardGroup g

/-- Whether a model sees a row, and the row satisfies a filter. -/
def Model.selects (m : Model) (g : FilterGroup) (row : Json) : Bool := m.sees row && g.holds row

/-- What becomes of a row in an update. -/
def Model.changed (m : Model) (g : FilterGroup) (written : Row) (row : Json) : Json :=
  if m.selects g row then row.overwrite written else row

/-- The rows that a model sees have keys, no two of them the same. -/
structure Store.Keyed (s : Store) (m : Model) : Prop where
  present : ∀ row ∈ s.seen m, (m.keyOf row).isNull = false
  different : (s.seen m).Pairwise fun row x => (m.keyOf row).looseEq (m.keyOf x) = false

section
variable {m : Model} {g : FilterGroup} {written : Row}

theorem Model.sees_overwrite (hdeleted : deletedAt ∉ written.keys) (row : Json) :
    m.sees (row.overwrite written) = m.sees row := by
  rw [sees, sees, Json.isLive, Json.isLive, Json.get?_overwrite_of_not_mem hdeleted]

theorem Model.sees_changed (hdeleted : deletedAt ∉ written.keys) (row : Json) :
    m.sees (m.changed g written row) = m.sees row := by
  unfold changed
  split
  · exact m.sees_overwrite hdeleted row
  · rfl

theorem Model.keyOf_overwrite (plain : Path.Plain m.primaryKey) (hkey : m.primaryKey ∉ written.keys)
    {row : Json} (hrow : row.isObject = true) :
    m.keyOf (row.overwrite written) = m.keyOf row := by
  have hobject : (row.overwrite written).isObject = true := by rwa [Json.isObject_overwrite]
  rw [m.keyOf_eq plain hobject, m.keyOf_eq plain hrow, Json.get?_overwrite_of_not_mem hkey]

theorem Model.keyOf_changed (plain : Path.Plain m.primaryKey) (hkey : m.primaryKey ∉ written.keys)
    {row : Json} (hrow : row.isObject = true) :
    m.keyOf (m.changed g written row) = m.keyOf row := by
  unfold changed
  split
  · exact m.keyOf_overwrite plain hkey hrow
  · rfl

end

namespace Store
variable {s : Store} {m : Model} {g : FilterGroup} {written : Row}

/-- The rows that an update changes, as it leaves them. -/
def changedRows (s : Store) (m : Model) (g : FilterGroup) (written : Row) : List Json :=
  ((s.rows m.table).filter (m.selects g)).map (Json.overwrite written)

/-- The update answers with the rows that it changed, and writes no others. -/
theorem execute_change (world : World) {u : Store} (hu : u.rows = s.rows) (m : Model)
    (g : FilterGroup) (written : Row) :
    (execute world (.update (m.change g written)) u).1 = .ok (.rows (s.changedRows m g written)) ∧
      (execute world (.update (m.change g written)) u).2.rows =
        (s.put m.table ((s.rows m.table).map (m.changed g written))).rows := by
  have hholds : (m.guardGroup g).holds = m.selects g := by
    funext row
    rw [Model.holds_guardGroup, Model.selects, Bool.and_comm]
  have hrows := rows_carryOut_congr world (.update (m.change g written)) hu
  constructor
  · simp only [execute, carryOut, Model.change, amend, matching, hholds, hu]
    rfl
  · refine Eq.trans hrows ?_
    simp only [carryOut, Model.change, amend, hholds]
    rfl

theorem seen_change (hdeleted : deletedAt ∉ written.keys) {t : Store}
    (ht : t.rows = (s.put m.table ((s.rows m.table).map (m.changed g written))).rows) :
    t.seen m = (s.seen m).map (m.changed g written) := by
  rw [seen, ht, rows_put_self, List.filter_map, seen]
  congr 1
  refine List.filter_congr fun row _ => ?_
  exact Model.sees_changed hdeleted row

theorem changedRows_eq : s.changedRows m g written =
    ((s.seen m).filter g.holds).map (Json.overwrite written) := by
  rw [changedRows, seen, List.filter_filter]
  congr 1
  refine List.filter_congr fun row _ => ?_
  rw [Model.selects, Bool.and_comm]

/-- Where all rows have keys of their own, the rows with the key of a changed row are those that
were changed. -/
theorem sharesKey_changed (plain : Path.Plain m.primaryKey) (objects : s.ObjectRows)
    (keyed : s.Keyed m) (hkey : m.primaryKey ∉ written.keys) {x : Json} (hx : x ∈ s.seen m) :
    m.sharesKey (s.changedRows m g written) (m.changed g written x) = g.holds x := by
  have hobject : ∀ row ∈ s.seen m, row.isObject = true := fun row hrow =>
    objects m.table row (mem_seen.1 hrow).1
  rw [Model.sharesKey, Model.keyOf_changed plain hkey (hobject x hx), changedRows_eq,
    Bool.eq_iff_iff, List.any_eq_true]
  constructor
  · rintro ⟨row, hrow, hsame⟩
    obtain ⟨y, hy, rfl⟩ := List.mem_map.1 hrow
    obtain ⟨hy, hholds⟩ := List.mem_filter.1 hy
    rw [Model.keyOf_overwrite plain hkey (hobject y hy), Bool.and_eq_true] at hsame
    by_contra hne
    have hxy : x ≠ y := by
      rintro rfl
      exact hne hholds
    have hsymm : Std.Symm fun row x : Json => (m.keyOf row).looseEq (m.keyOf x) = false :=
      ⟨fun a b h => by rwa [Json.looseEq_comm]⟩
    have hdifferent := keyed.different.forall hx hy hxy
    rw [hdifferent] at hsame
    exact Bool.false_ne_true hsame.2
  · intro hholds
    have hpresent := keyed.present x hx
    refine ⟨x.overwrite written, List.mem_map_of_mem (List.mem_filter.2 ⟨hx, hholds⟩), ?_⟩
    rw [Model.keyOf_overwrite plain hkey (hobject x hx), hpresent, Json.looseEq_refl]
    rfl

theorem filter_changed (plain : Path.Plain m.primaryKey) (objects : s.ObjectRows)
    (keyed : s.Keyed m) (hkey : m.primaryKey ∉ written.keys) :
    ((s.seen m).map (m.changed g written)).filter (m.sharesKey (s.changedRows m g written)) =
      s.changedRows m g written := by
  have hfilter : (s.seen m).filter (m.sharesKey (s.changedRows m g written) ∘
      m.changed g written) = (s.seen m).filter g.holds :=
    List.filter_congr fun x hx => sharesKey_changed plain objects keyed hkey hx
  rw [List.filter_map, hfilter, changedRows_eq]
  refine List.map_congr_left fun row hrow => ?_
  obtain ⟨hseen, hholds⟩ := List.mem_filter.1 hrow
  rw [Model.changed, Model.selects, (mem_seen.1 hseen).2, hholds]
  rfl

end Store

namespace Task
variable {registry : Registry} {settings : Settings} {world : World} {s : Store} {m : Model}
  {action : String} {input : Json}

/-- An update whose conditions can be read and pushed down is carried out. -/
theorem runFrom_update {data : Row} {g g' : FilterGroup} {u : Store}
    (hdata : input.get? "data" = some (.obj data))
    (hparse : Filter.parse ((input.get? "conditions").getD .null) = .ok (some g))
    (pushed : (Pushdown.pushGroup (Store.engine world registry settings) m g).runFrom s =
      (.ok g', u)) :
    let op := m.change g' (m.written world data)
    (update (Store.context world registry settings m action) input).runFrom s =
      (.ok (.arr (s.changedRows m g' (m.written world data))),
        (Store.execute world (.update op) u).2) := by
  have hrow : asRow "data" ((input.get? "data").getD .null) = .ok data := by
    rw [hdata]
    rfl
  have hresolve : (Pushdown.resolveGroup (Store.engine world registry settings) m g).runFrom s =
      (.ok (m.guardGroup g'), u) := Act.runFrom_bind_ok pushed
  rw [update, Act.runFrom_ofExcept_bind hrow, Act.runFrom_bind_ok (runFrom_currentTime s)]
  dsimp only
  rw [Act.runFrom_ofExcept_bind (filterUnder_eq_ok.2 hparse)]
  have hanswer := (Store.execute_change world ((Pushdown.pushGroup_readsOnly g).rows_eq pushed) m g'
    (m.written world data)).1
  have hperform := Store.runFrom_perform_of_answered world hanswer
  exact (Act.runFrom_bind_ok hresolve).trans (Act.runFrom_bind_ok hperform)

theorem validate_update {schema : Members AttributeType} {data : Row}
    (hdata : input.get? "data" = some (.obj data))
    (types : checkTypes schema "data." data = .ok ()) :
    validate schema "update" input = .ok input := by
  simp only [validate, hdata, types]
  rfl

/-- Where all rows have keys of their own, the changed rows are found when they are read again. -/
theorem runFrom_read_changed (hm : registry.models.get? m.name = some m)
    (plain : Path.Plain m.primaryKey) (objects : s.ObjectRows) (keyed : s.Keyed m) {g : FilterGroup}
    {written : Row} (hkey : m.primaryKey ∉ written.keys) (hdeleted : deletedAt ∉ written.keys)
    {t : Store} (ht : t.rows = (s.put m.table ((s.rows m.table).map (m.changed g written))).rows) :
    ((read (Store.context world registry settings m action)
      (.arr (s.changedRows m g written))).runFrom t).1 =
      .ok (.arr (s.changedRows m g written)) := by
  have hchanged : ∀ row ∈ s.changedRows m g written,
      row.isObject = true ∧ (m.keyOf row).isNull = false := by
    intro row hrow
    rw [Store.changedRows_eq] at hrow
    obtain ⟨old, hold, rfl⟩ := List.mem_map.1 hrow
    have hseen := (List.mem_filter.1 hold).1
    have hobject := objects m.table old (Store.mem_seen.1 hseen).1
    rw [Json.isObject_overwrite, Model.keyOf_overwrite plain hkey hobject]
    exact ⟨hobject, keyed.present old hseen⟩
  by_cases hnone : s.changedRows m g written = []
  · rw [hnone, read_keyless_rows plain action (by simp) (by simp), Act.runFrom_pure]
  · obtain ⟨row, hrow⟩ := List.exists_mem_of_ne_nil _ hnone
    obtain ⟨u, hread⟩ := runFrom_read_rows world settings hm plain action
      (fun row hrow => (hchanged row hrow).1) ⟨row, hrow, (hchanged row hrow).2⟩ t
    rw [hread, Store.seen_change hdeleted ht, Store.filter_changed plain objects keyed hkey]

end Task

namespace Runner

/-- An update writes its data over the rows that the model sees and that satisfy the conditions
pushed down, and answers with these rows where all rows have keys of their own. -/
theorem execute_update (world : World) (patience : Nat) {settings : Settings}
    {specs : List ModelSpec} {registry : Registry} (loaded : Registry.ofSpecs specs = .ok registry)
    {name : String} {m : Model} (hm : registry.models.get? name = some m) {s : Store}
    (objects : s.ObjectRows) {input checked : Json}
    (accepted : Input.check .update settings input = .ok checked) :
    let answer := ((Store.runner world registry settings patience).execute name "update"
      input).runFrom s
    ∃ data g, input.get? "data" = some (.obj data) ∧
      Filter.parse ((input.get? "conditions").getD .null) = .ok (some g) ∧
      (Task.checkTypes m.schema "data." data = .ok () →
        ∀ {g' u}, (Pushdown.pushGroup (Store.engine world registry settings) m g).runFrom s =
          (.ok g', u) →
        let written := m.written world data
        answer.2.rows = (s.put m.table ((s.rows m.table).map (m.changed g' written))).rows ∧
          (Path.Plain m.primaryKey → s.Keyed m → m.primaryKey ∉ written.keys →
            deletedAt ∉ written.keys → answer.1 = .ok (.arr (s.changedRows m g' written)))) := by
  obtain ⟨data, g, hdata, hparse, hdata', hconditions⟩ := Input.update_of_check accepted
  have hm' := Registry.get?_name_of_ofSpecs loaded hm
  have hcanonical : Filter.parse ((checked.get? "conditions").getD .null) = .ok (some g) := by
    rw [hconditions]
    exact Filter.parse_toJson_of_parse hparse
  refine ⟨data, g, hdata, hparse, fun types g' u pushed => ?_⟩
  let ctx := Store.context world registry settings m "update"
  let t := (Store.execute world (.update (m.change g' (m.written world data))) u).2
  have hu : u.rows = s.rows := (Pushdown.pushGroup_readsOnly g).rows_eq pushed
  have ht := (Store.execute_change world hu m g' (m.written world data)).2
  have hrun : ((Store.runner world registry settings patience).execute name "update" input).runFrom
      s = (Task.read ctx (.arr (s.changedRows m g' (m.written world data)))).runFrom t := by
    refine ((Store.runner world registry settings patience).runFrom_execute_update rfl hm accepted
      s).trans ?_
    refine (Act.runFrom_ofExcept_bind (Task.validate_update hdata' types) _ s).trans ?_
    exact Act.runFrom_bind_ok (Task.runFrom_update hdata' hcanonical pushed)
  dsimp only
  rw [hrun]
  refine ⟨?_, fun plain keyed hkey hdeleted => ?_⟩
  · exact (Task.read_readsOnly _ t).trans ht
  · exact Task.runFrom_read_changed hm' plain objects keyed hkey hdeleted ht

end Runner
/-! ## An example: drafts with times, which are only marked as deleted -/

namespace Drafts

def schema : Members AttributeType := [("id", .string), ("title", .string)]

def spec : ModelSpec where
  name := "draft"
  schema
  config := ⟨some "id", some "drafts", none, true, true, some "draft", some "drafts"⟩

def model : Model :=
  ⟨"draft", schema, ⟨"id", "drafts", none, true, true, "draft", "drafts"⟩, [], [], [], []⟩

def registry : Registry := ⟨[("draft", model)]⟩

theorem loaded : Registry.ofSpecs [spec] = .ok registry := by rfl

def draft (id title : String) : Json := .obj [("id", .str id), ("title", .str title)]

def deletedDraft : Json :=
  .obj [("deleted_at", .int 1), ("id", .str "c"), ("title", .str "old")]

def store : Store :=
  { rows := fun table =>
      if table = "drafts" then [draft "a" "old", draft "b" "new", deletedDraft] else [] }

theorem objectRows : store.ObjectRows := by
  intro table row hrow
  simp only [store] at hrow
  split at hrow
  · simp only [List.mem_cons, List.not_mem_nil, or_false] at hrow
    obtain rfl | rfl | rfl := hrow <;> rfl
  · cases hrow

theorem seen_store : store.seen model = [draft "a" "old", draft "b" "new"] := by rfl

theorem plainKey : Path.Plain model.primaryKey := ⟨by decide, by decide⟩

theorem keyed : store.Keyed model := by
  constructor
  · rw [seen_store]
    intro row hrow
    simp only [List.mem_cons, List.not_mem_nil, or_false] at hrow
    obtain rfl | rfl := hrow <;> decide +kernel
  · rw [seen_store]
    refine List.pairwise_pair.2 ?_
    decide +kernel

/-- The drafts with the title `old`. -/
def isOld : FilterGroup := .leaf "title" .eq (.str "old")

def retitling : Json :=
  .obj [("conditions", .obj [("title", .str "old")]), ("data", .obj [("title", .str "new")])]

def checkedRetitling : Json :=
  .obj [("conditions", isOld.toJson), ("data", .obj [("title", .str "new")])]

def retitle (s : Store) : Except Error Json × Store :=
  ((Store.runner Blog.world registry {} 0).execute "draft" "update" retitling).runFrom s

theorem retitle_store :
    Registry.ofSpecs [spec] = .ok registry ∧ store.ObjectRows ∧
      Input.check .update {} retitling = .ok checkedRetitling ∧
      Path.Plain model.primaryKey ∧ store.Keyed model ∧
      (retitle store).1 = .ok (.arr [.obj [("id", .str "a"), ("title", .str "new"),
        ("updated_at", .str "2024-01-01T00:00:00Z")]]) ∧
      (retitle store).2.rows "drafts" = [.obj [("id", .str "a"), ("title", .str "new"),
        ("updated_at", .str "2024-01-01T00:00:00Z")], draft "b" "new", deletedDraft] := by
  have hm : registry.models.get? "draft" = some model := rfl
  have accepted : Input.check .update {} retitling = .ok checkedRetitling := rfl
  have pushed : (Pushdown.pushGroup (Store.engine Blog.world registry {}) model isOld).runFrom
      store = (.ok isOld, store) := by
    have hlocal : Pushdown.Local model "title" := .inr rfl
    rw [isOld, FilterGroup.leaf, Pushdown.pushGroup_of_local _ _ ⟨"title", .eq, .str "old"⟩ hlocal]
    rfl
  obtain ⟨data, g, hdata, hparse, h⟩ := Runner.execute_update Blog.world 0 loaded hm objectRows
    accepted
  obtain rfl : [("title", .str "new")] = data := by
    cases hdata
    rfl
  obtain rfl : isOld = g := by
    cases hparse
    rfl
  have hwritten : model.written Blog.world [("title", .str "new")] =
      [("title", .str "new"), ("updated_at", .str "2024-01-01T00:00:00Z")] := by
    cbv
  obtain ⟨hrows, hanswer⟩ := h rfl pushed
  rw [hwritten] at hrows hanswer
  refine ⟨loaded, objectRows, accepted, plainKey, keyed, ?_, ?_⟩
  · rw [retitle, hanswer plainKey keyed (by decide) (by decide)]
    rfl
  · rw [retitle, hrows]
    rfl

end Drafts
end ModelActions
