import ModelActions.Proofs.Computation

/-!
# Visible rows

A model that uses soft deletes sees the live rows of its table only. The guard that its filters
carry says just that.
-/
namespace ModelActions

/-- A column name that is found in a row as it stands. -/
def Path.Plain (column : String) : Prop := column ≠ "" ∧ '.' ∉ column.toList

theorem Path.headChars_of_not_mem {cs : List Char} (h : '.' ∉ cs) : headChars cs = (cs, none) := by
  induction cs with
  | nil => rfl
  | cons c cs ih =>
    simp only [List.mem_cons, not_or] at h
    simp [headChars, Ne.symm h.1, ih h.2]

theorem Path.rest?_of_not_mem {path : String} (h : '.' ∉ path.toList) : rest? path = none := by
  rw [rest?, headChars_of_not_mem h]
  rfl

theorem Path.segments_of_plain {column : String} (h : Path.Plain column) :
    segments column = [column] := segments_of_rest?_none (rest?_of_not_mem h.2)

namespace Json

theorem lookup_of_plain {row : Json} (hrow : row.isObject = true) {column : String}
    (h : Path.Plain column) : row.lookup column = row.get? column := by
  cases row <;> simp only [isObject, Bool.false_eq_true] at hrow
  simp [lookup, Path.segments_of_plain h, h.1, walk, step, get?]

/-- Not marked as deleted: the mark is absent, null or blank. -/
def isLive (row : Json) : Bool := ((row.get? deletedAt).getD .null).isEmpty

theorem get?_obj (members : Members Json) (key : String) :
    (obj members).get? key = Members.get? members key := rfl

theorem get?_project_single (column : String) (row : Json) :
    (row.project [column]).get? column = row.get? column := by
  rw [project, get?_obj]
  cases h : row.get? column <;> simp [h, Members.ofList, Members.insert, Members.get?]

theorem isObject_overwrite (row : Json) (data : Row) :
    (row.overwrite data).isObject = row.isObject := by
  cases row <;> rfl

theorem get?_overwrite_of_not_mem {data : Row} {column : String} (h : column ∉ data.keys)
    (row : Json) : (row.overwrite data).get? column = row.get? column := by
  cases row with
  | obj members => exact Members.get?_overwrite_of_not_mem members h
  | _ => rfl

end Json

theorem lookup_deletedAt (row : Json) : row.lookup deletedAt = row.get? deletedAt := by
  have hs : Path.segments deletedAt = [deletedAt] := by decide +kernel
  have hi : Path.index? deletedAt = none := by decide +kernel
  have he : deletedAt.isEmpty = false := by decide +kernel
  simp only [Json.lookup, he, hs]
  cases row <;> simp [Json.walk, Json.step, Json.get?, hi]

theorem FilterGroup.holds_leaf (path : String) (op : Comparator) (value row : Json) :
    (FilterGroup.leaf path op value).holds row = (Condition.mk path op value).holds row := by
  simp [leaf, holds_and, Filter.holds]

theorem holds_liveRows (row : Json) : liveRows.holds row = row.isLive := by
  rw [liveRows, FilterGroup.holds_leaf, Condition.holds, lookup_deletedAt]
  rfl

namespace Model

/-- Whether a row of the model's table is visible to the model. -/
def sees (m : Model) (row : Json) : Bool := !m.config.softDelete || row.isLive

theorem holds_guardGroup (m : Model) (g : FilterGroup) (row : Json) :
    (m.guardGroup g).holds row = (g.holds row && m.sees row) := by
  unfold guardGroup sees
  cases m.config.softDelete with
  | false => simp
  | true =>
    have hl : Filter.holds row liveRows.toFilter = row.isLive := holds_liveRows row
    rw [if_pos rfl, FilterGroup.holds_and, List.all_cons, List.all_cons, List.all_nil, hl]
    simp [FilterGroup.holds]

end Model

/-- No table belongs to two models. -/
def Registry.DistinctTables (registry : Registry) : Prop :=
  ∀ {name name' : String} {m m' : Model}, registry.models.get? name = some m →
    registry.models.get? name' = some m' → m.table = m'.table → m = m'

namespace Store

/-- The rows of a model's table that the model sees. -/
def seen (s : Store) (m : Model) : List Json := (s.rows m.table).filter m.sees

theorem matching_guardGroup (s : Store) (m : Model) (g : FilterGroup) :
    s.matching m.table (m.guardGroup g) = (s.seen m).filter g.holds := by
  rw [matching, seen, List.filter_filter]
  exact List.filter_congr fun row _ => m.holds_guardGroup g row

/-- The rows of a select that is restricted to those that the model sees. -/
theorem found_guard (s : Store) (m : Model) {op : Select} {f : Option FilterGroup}
    (table : op.table = m.table) (filters : op.filters = m.guard f) :
    s.found op = (s.seen m).filter fun row => f.all (·.holds row) := by
  rw [found, filters, table]
  cases f with
  | some g => exact s.matching_guardGroup m g
  | none =>
    rw [Model.guard]
    cases hs : m.config.softDelete with
    | true =>
      have hlive : liveRows.holds = Json.isLive := funext holds_liveRows
      simp [seen, Model.sees, hs, hlive]
    | false =>
      have hall : s.seen m = s.rows m.table :=
        List.filter_eq_self.2 fun row _ => by simp [Model.sees, hs]
      rw [hall]
      rfl

theorem found_congr {s t : Store} (h : t.rows = s.rows) (op : Select) :
    t.found op = s.found op := by
  rw [found, found, h]

/-- The answer to a select depends on the rows only. -/
theorem select_congr {s t : Store} (h : t.rows = s.rows) (world : World) (op : Select) :
    t.select world op = s.select world op := by
  rw [select, select, sorted, sorted, found_congr h]

theorem mem_seen {s : Store} {m : Model} {row : Json} :
    row ∈ s.seen m ↔ row ∈ s.rows m.table ∧ m.sees row = true := List.mem_filter

end Store

/-! ## An example: users, who are only marked as deleted, and their posts -/

namespace Blog

def model (name table : String) (softDelete : Bool) (relationships : Members Relationship) :
    Model where
  name
  schema := []
  config := ⟨"id", table, none, softDelete, false, name, table⟩
  relationships
  scopes := []
  views := []
  actions := []

def user : Model :=
  model "user" "users" true [("posts", ⟨.hasMany, "posts", "user", "post", "id", "author_id"⟩)]

def post : Model :=
  model "post" "posts" false
    [("author", ⟨.belongsTo, "author", "post", "user", "author_id", "id"⟩)]

def registry : Registry := ⟨[("post", post), ("user", user)]⟩

def world : World := ⟨"2024-01-01T00:00:00Z", 1704067200, toString, .strict⟩

def ada : Json := .obj [("id", .str "a"), ("name", .str "ada")]

def deletedAda : Json := .obj [("deleted_at", .int 1), ("id", .str "b"), ("name", .str "ada")]

def note : Json := .obj [("author_id", .str "a"), ("id", .str "p")]

def store : Store :=
  { rows := fun table =>
      if table = "users" then [ada, deletedAda] else if table = "posts" then [note] else [] }

theorem get?_registry {name : String} {m : Model} (h : registry.models.get? name = some m) :
    m = post ∨ m = user := by
  have hm := Members.mem_of_get? h
  simp only [registry, List.mem_cons, Prod.mk.injEq, List.not_mem_nil, or_false] at hm
  exact hm.imp And.right And.right

end Blog
end ModelActions
