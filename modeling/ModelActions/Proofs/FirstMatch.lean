import ModelActions.Proofs.ActionSteps
import ModelActions.Proofs.CheckedInputs
import ModelActions.Proofs.FailedActions
import ModelActions.Proofs.ReadByKey

/-!
# The first match

Reading one row answers with the first row, in the order of the table, that the model sees and that
satisfies the filter. Where the model has an attribute named `filters`, the filter is taken for a
row that is to be read again.
-/
namespace ModelActions

section
variable {world : World} {registry : Registry} {settings : Settings} {patience : Nat} {m : Model}

namespace Task

/-- The answer to reading one row, if there is one. -/
def answerOne (m : Model) : Option Json → Except Error Json
  | some row => .ok (wrap row)
  | none => .error (.notFound m.name)

/-- How reading one row ends with what was read. -/
def conclude (m : Model) (found : Json) : Except Error Json :=
  if found.isNull then .error (.notFound m.name) else .ok (wrap found)

/-- Rows are never null, so that what is read is null only if there is no row. -/
theorem conclude_firstOf_filter {rows : List Json} (objects : ∀ row ∈ rows, row.isObject = true)
    (p : Json → Bool) : conclude m (firstOf (rows.filter p)) = answerOne m (rows.find? p) := by
  rw [← List.head?_filter]
  cases hrows : rows.filter p with
  | nil => rfl
  | cons row rest =>
    have hrow := objects row (List.mem_of_mem_filter (hrows ▸ List.mem_cons_self))
    cases row with
    | obj => rfl
    | _ => cases hrow

/-- An input with a filter and nothing else is the request for the first row that satisfies it. -/
theorem runFrom_read_request (hm : registry.models.get? m.name = some m)
    (unlisted : m.schema.has "filters" = false) (action : String) {s u : Store}
    {g g' : FilterGroup} (parsed : Filter.parse g.toJson = .ok (some g))
    (pushed : (Pushdown.pushGroup (Store.engine world registry settings) m g).runFrom s =
      (.ok g', u)) :
    ∃ t, (read (Store.context world registry settings m action)
      (.obj [("filters", g.toJson)])).runFrom s =
        (.ok (firstOf ((s.seen m).filter g'.holds)), t) := by
  have hrequest : isRequest m (.obj [("filters", g.toJson)]) = true := by
    simp [isRequest, unlisted, Json.get?_obj, Members.get?]
  have hjson : Request.ofJson (.obj [("filters", g.toJson)]) = .ok { filters := g.toJson } := rfl
  obtain ⟨found, t, hselect, hresult⟩ := Query.runFrom_select_filters hm parsed pushed
    (some { page := some 1, perPage := some 1 }) none
  have hfirst : firstOf found.result = firstOf ((s.seen m).filter g'.holds) := by
    rw [hresult]
    cases (s.seen m).filter g'.holds <;> rfl
  refine ⟨t, ?_⟩
  rw [read_of_isRequest hrequest hjson, ← hfirst]
  exact Act.runFrom_bind_ok hselect

/-- Where `filters` is an attribute but not the key, such an input is a row without a key, which is
left as it is. -/
theorem read_keyless_filters (listed : m.schema.has "filters" = true)
    (keyed : m.primaryKey ≠ "filters") (action : String) (filters : Json) :
    read (Store.context world registry settings m action) (.obj [("filters", filters)]) =
      pure (.obj [("filters", filters)]) := by
  have hrequest : isRequest m (.obj [("filters", filters)]) = false := by
    simp [isRequest, listed]
  have hkey : Members.get? [("filters", filters)] m.primaryKey = none := by
    simp [Members.get?, Ne.symm keyed]
  refine read_of_keyless hrequest ?_
  exact congrArg (fun key => (key.getD .null).isNull) hkey

/-- Where `filters` is the primary key, the rows with the filter as their key are looked for. -/
theorem runFrom_read_filters_key (hm : registry.models.get? m.name = some m)
    (listed : m.schema.has "filters" = true) (key : m.primaryKey = "filters") (action : String)
    (s : Store) (g : FilterGroup) :
    ∃ t, (read (Store.context world registry settings m action)
      (.obj [("filters", g.toJson)])).runFrom s =
        (.ok (firstOf ((s.seen m).filter (Condition.holds ⟨"filters", .eq, g.toJson⟩))), t) := by
  have hrequest : isRequest m (.obj [("filters", g.toJson)]) = false := by
    simp [isRequest, listed]
  have hget : Members.get? [("filters", g.toJson)] m.primaryKey = some g.toJson := by
    rw [key]
    rfl
  let leaf : Condition := ⟨m.primaryKey, .eq, g.toJson⟩
  have hpath : leaf.path = "filters" := key
  have hnonempty : leaf.path ≠ "" := by rw [hpath]; decide
  have hlocal : Pushdown.Local m leaf.path := .inl (by rw [hpath]; decide +kernel)
  obtain ⟨found, t, hselect, hresult⟩ := Query.runFrom_select_leaf world settings hm leaf hlocal
    hnonempty s
  refine ⟨t, ?_⟩
  rw [read_of_key hrequest hget rfl, ← key]
  exact (Act.runFrom_bind_ok hselect).trans (by rw [hresult]; rfl)

end Task

theorem Predicate.holds_isNull (input context : Json) :
    (Predicate.test "$" (.isNull true)).holds input context = input.isNull := by
  have hresolve : Predicate.resolve "$" input context = some input := by
    simp [Predicate.resolve, Json.lookup]
  rw [Predicate.holds, hresolve]
  simp [Test.holds]

/-- Reading one row ends with what was read, unless that is null. -/
theorem Walk.follow_readOne {σ : Type} (ctx : Context σ) (action : ctx.action = "readOne")
    (traced : Bool) (fuel : Nat) (previous : String) (p : Packet) :
    (·.output) <$> follow Graph.readOne .builtin ctx traced (fuel + 4) previous "ValidateInput" p =
      (do
        let found ← Task.read ctx p.input
        Act.ofExcept (Task.conclude ctx.model found)) := by
  have hvalidate : Task.validate ctx.model.schema ctx.action p.input = .ok p.input := by
    rw [action]
    rfl
  have hnotFound (q : Packet) :
      (·.output) <$> follow Graph.readOne .builtin ctx traced (fuel + 1) "CheckFound" "NotFound" q =
        throw (.notFound ctx.model.name) := by
    rw [follow_taskEnd rfl rfl]
    rfl
  have hsuccess (q : Packet) :
      (·.output) <$> follow Graph.readOne .builtin ctx traced (fuel + 1) "CheckFound" "Success" q =
        pure (Task.wrap q.input) := by
    rw [follow_taskEnd rfl rfl]
    rfl
  rw [follow_taskTo rfl rfl, hvalidate, Act.ofExcept, pure_bind, follow_taskTo rfl rfl, map_bind]
  refine bind_congr fun found => ?_
  rw [follow_branch rfl, Predicate.holds_isNull]
  simp only [Packet.advance, Packet.record, Task.conclude]
  cases found.isNull with
  | true => exact hnotFound _
  | false => exact hsuccess _

namespace Runner

theorem runFrom_execute_readOne {σ : Type} (r : Runner σ) (htasks : r.tasks = Tasks.builtin)
    {name : String} (hm : r.registry.models.get? name = some m) {input checked found : Json}
    {s t : σ} (accepted : Input.check .readOne r.settings input = .ok checked)
    (hread : (Task.read (r.context m "readOne") checked).runFrom s = (.ok found, t)) :
    (r.execute name "readOne" input).runFrom s = (Task.conclude m found, t) := by
  have hfuel : Graph.readOne.states.length + 1 + r.patience = r.patience + 2 + 4 := by
    rw [Nat.add_comm]
    rfl
  rw [r.runFrom_execute (a := .readOne) htasks hm rfl rfl accepted, hfuel]
  refine (congrArg (Act.runFrom · s)
    (Walk.follow_readOne (r.context m "readOne") rfl _ (r.patience + 2) _ _)).trans ?_
  dsimp only
  rw [Act.runFrom_bind_ok hread, Act.runFrom_ofExcept]
  rfl

/-- Reading one row answers with the first row that the model sees and that satisfies the filter
pushed down, or finds none. Where `filters` is an attribute, the answer is the filter itself as a
row, or the row that has it as its key. -/
theorem execute_readOne (world : World) (patience : Nat) {specs : List ModelSpec}
    (loaded : Registry.ofSpecs specs = .ok registry) {name : String}
    (hm : registry.models.get? name = some m) {s : Store} (objects : s.ObjectRows)
    {f checked : Json}
    (accepted : Input.check .readOne settings (.obj [("filters", f)]) = .ok checked) :
    let answer := (((Store.runner world registry settings patience).execute name "readOne"
      (.obj [("filters", f)])).runFrom s).1
    ∃ g, Filter.parse f = .ok (some g) ∧
      (m.schema.has "filters" = false →
        ∀ {g' u}, (Pushdown.pushGroup (Store.engine world registry settings) m g).runFrom s =
          (.ok g', u) → answer = Task.answerOne m ((s.seen m).find? g'.holds)) ∧
      (m.schema.has "filters" = true → m.primaryKey ≠ "filters" →
        answer = .ok (Task.wrap (.obj [("filters", g.toJson)]))) ∧
      (m.schema.has "filters" = true → m.primaryKey = "filters" →
        answer = Task.answerOne m
          ((s.seen m).find? (Condition.holds ⟨"filters", .eq, g.toJson⟩))) := by
  obtain ⟨g, hparse, rfl⟩ := Input.filters_of_check accepted
  have hm' := Registry.get?_name_of_ofSpecs loaded hm
  let r := Store.runner world registry settings patience
  have hrun {found : Json} {t : Store}
      (hread : (Task.read (Store.context world registry settings m "readOne")
        (.obj [("filters", g.toJson)])).runFrom s = (.ok found, t)) :
      ((r.execute name "readOne" (.obj [("filters", f)])).runFrom s).1 = Task.conclude m found :=
    congrArg Prod.fst (runFrom_execute_readOne r rfl hm accepted hread)
  have hobjects : ∀ row ∈ s.seen m, row.isObject = true := fun row hrow =>
    objects m.table row (Store.mem_seen.1 hrow).1
  refine ⟨g, hparse, fun unlisted g' u pushed => ?_, fun listed keyed => ?_, fun listed key => ?_⟩
  · have hcanonical := Filter.parse_toJson_of_parse hparse
    obtain ⟨t, hread⟩ := Task.runFrom_read_request hm' unlisted "readOne" hcanonical pushed
    exact (hrun hread).trans (Task.conclude_firstOf_filter hobjects g'.holds)
  · have hread : (Task.read (Store.context world registry settings m "readOne")
        (.obj [("filters", g.toJson)])).runFrom s = (.ok (.obj [("filters", g.toJson)]), s) := by
      rw [Task.read_keyless_filters listed keyed]
      rfl
    exact hrun hread
  · obtain ⟨t, hread⟩ := Task.runFrom_read_filters_key hm' listed key "readOne" s g
    exact (hrun hread).trans (Task.conclude_firstOf_filter hobjects _)

end Runner
end

/-! ## Searches, which may have a column for their filters -/

namespace Searches

def spec (schema : Members AttributeType) : ModelSpec where
  name := "search"
  schema
  config := ⟨some "id", some "searches", none, false, false, some "search", some "searches"⟩

def model (schema : Members AttributeType) : Model :=
  ⟨"search", schema, ⟨"id", "searches", none, false, false, "search", "searches"⟩, [], [], [], []⟩

def registry (schema : Members AttributeType) : Registry := ⟨[("search", model schema)]⟩

theorem loaded (schema : Members AttributeType) :
    Registry.ofSpecs [spec schema] = .ok (registry schema) := by rfl

def row (id : String) : Json := .obj [("id", .str id)]

def store : Store :=
  { rows := fun table => if table = "searches" then [row "a", row "b"] else [] }

theorem objectRows : store.ObjectRows := by
  intro table row hrow
  simp only [store] at hrow
  split at hrow
  · simp only [List.mem_cons, List.not_mem_nil, or_false] at hrow
    obtain rfl | rfl := hrow <;> rfl
  · cases hrow

/-- The filter for the search with the key `b`. -/
def isB : FilterGroup := .leaf "id" .eq (.str "b")

def input : Json := .obj [("filters", .obj [("id", .str "b")])]

theorem accepted : Input.check .readOne {} input = .ok (.obj [("filters", isB.toJson)]) := rfl

theorem pushed (schema : Members AttributeType) :
    (Pushdown.pushGroup (Store.engine Blog.world (registry schema) {}) (model schema) isB).runFrom
      store = (.ok isB, store) := by
  have hlocal : Pushdown.Local (model schema) "id" := .inl (by decide +kernel)
  rw [isB, FilterGroup.leaf, Pushdown.pushGroup_of_local _ _ ⟨"id", .eq, .str "b"⟩ hlocal]
  rfl

theorem find?_isB (schema : Members AttributeType) :
    (store.seen (model schema)).find? isB.holds = some (row "b") := by
  cbv

/-- What reading the search with the key `b` answers. -/
def readB (schema : Members AttributeType) : Except Error Json :=
  (((Store.runner Blog.world (registry schema) {} 0).execute "search" "readOne" input).runFrom
    store).1

theorem readB_without_schema : readB [] = .ok (Task.wrap (row "b")) := by
  have hm : (registry []).models.get? "search" = some (model []) := rfl
  obtain ⟨g, hparse, hfirst, -, -⟩ := Runner.execute_readOne Blog.world 0 (loaded []) hm objectRows
    accepted
  obtain rfl : isB = g := by
    cases hparse
    rfl
  have hanswer := hfirst rfl (pushed [])
  rw [find?_isB] at hanswer
  exact hanswer

/-- The schema of searches that have a column for their filters. -/
def filtersSchema : Members AttributeType := [("filters", .json)]

/-- Where `filters` is an attribute of the schema, the filter comes back instead of the row. -/
theorem readB_with_filters :
    Registry.ofSpecs [spec filtersSchema] = .ok (registry filtersSchema) ∧ store.ObjectRows ∧
      Input.check .readOne {} input = .ok (.obj [("filters", isB.toJson)]) ∧
      (Pushdown.pushGroup (Store.engine Blog.world (registry filtersSchema) {})
        (model filtersSchema) isB).runFrom store = (.ok isB, store) ∧
      readB filtersSchema = .ok (Task.wrap (.obj [("filters", isB.toJson)])) ∧
      readB filtersSchema ≠ Task.answerOne (model filtersSchema)
        ((store.seen (model filtersSchema)).find? isB.holds) := by
  have hread : readB filtersSchema = .ok (Task.wrap (.obj [("filters", isB.toJson)])) := rfl
  refine ⟨loaded _, objectRows, accepted, pushed _, hread, fun h => ?_⟩
  rw [hread, find?_isB] at h
  simp [Task.answerOne, Task.wrap, row] at h

end Searches
end ModelActions
