import ModelActions.Proofs.ActionSteps
import ModelActions.Proofs.AllOrNothing
import ModelActions.Proofs.PagedInputs
import ModelActions.Proofs.SummarizedSelections

/-!
# Pages

Reading a list in pages gives the list that is read without pages, cut into pieces: no row is lost
or repeated, and every page says how many rows there are in all.
-/
namespace ModelActions

/-- The rows of a page; pages are counted from one. -/
def pageOf (rows : List Json) (page perPage : Nat) : List Json :=
  (rows.drop ((page - 1) * perPage)).take perPage

/-- How many pages some rows fill. -/
def pagesOf (rows : List Json) (perPage : Nat) : Nat := (rows.length + perPage - 1) / perPage

/-- A list as it is answered, with its page, if it is one, and the number of rows in all. -/
def listed (rows : List Json) (page perPage : Option Nat) (total : Nat) : Json :=
  .obj [("data", .arr rows),
    ("meta", .obj [
      ("count", .ofNat rows.length),
      ("page", .ofOption .ofNat page),
      ("per_page", .ofOption .ofNat perPage),
      ("total", .ofNat total)])]

/-- Within 64 bits there are not more rows than can be skipped, so that the limit does not show. -/
theorem Store.page_eq_pageOf {rows : List Json} (h : rows.length ≤ maxCount) (page perPage : Nat) :
    Store.page (some { page := some page, perPage }) rows = pageOf rows page perPage := by
  rw [Store.page, pageOf, Pagination.offset, Option.getD_some]
  rcases Nat.le_total ((page - 1) * perPage) maxCount with hle | hle
  · rw [Nat.min_eq_left hle]
  · have hpast : rows.length ≤ (page - 1) * perPage := Nat.le_trans h hle
    rw [Nat.min_eq_right hle, List.drop_eq_nil_of_le h, List.drop_eq_nil_of_le hpast]

theorem flatMap_pageOf (rows : List Json) (perPage pages : Nat) :
    (List.range' 1 pages).flatMap (pageOf rows · perPage) = rows.take (pages * perPage) := by
  induction pages with
  | zero => simp
  | succ pages ih =>
    rw [List.range'_1_concat, List.flatMap_append, ih, Nat.succ_mul, List.take_add]
    simp [pageOf]

theorem length_le_pagesOf (rows : List Json) {perPage : Nat} (h : 1 ≤ perPage) :
    rows.length ≤ pagesOf rows perPage * perPage := by
  have hdiv := Nat.div_add_mod (rows.length + perPage - 1) perPage
  have hmod := Nat.mod_lt (rows.length + perPage - 1) h
  rw [Nat.mul_comm] at hdiv
  rw [pagesOf]
  omega

/-- The pages that some rows fill are the rows. -/
theorem flatMap_pageOf_pagesOf (rows : List Json) {perPage : Nat} (h : 1 ≤ perPage) :
    (List.range' 1 (pagesOf rows perPage)).flatMap (pageOf rows · perPage) = rows := by
  rw [flatMap_pageOf, List.take_of_length_le (length_le_pagesOf rows h)]

/-- Pages after the last one are empty. -/
theorem pageOf_of_pagesOf_lt (rows : List Json) {page perPage : Nat} (h : 1 ≤ perPage)
    (late : pagesOf rows perPage < page) : pageOf rows page perPage = [] := by
  have hpages : pagesOf rows perPage ≤ page - 1 := by omega
  have hskipped := Nat.mul_le_mul_right perPage hpages
  have hall := length_le_pagesOf rows h
  rw [pageOf, List.drop_eq_nil_of_le (Nat.le_trans hall hskipped), List.take_nil]

/-- Pages are cut from projected rows as from the rows. -/
theorem pageOf_map (f : Json → Json) (rows : List Json) (page perPage : Nat) :
    pageOf (rows.map f) page perPage = (pageOf rows page perPage).map f := by
  rw [pageOf, pageOf, List.map_take, List.map_drop]

/-! ## Reading a list as a sequence of tasks -/

/-- Whether an input asks for a page. -/
def Json.asksForPage (input : Json) : Bool := (input.lookup "pagination").any (!·.isNull)

theorem Predicate.holds_pagination (input context : Json) :
    (Predicate.test "$.pagination" (.isPresent true)).holds input context = input.asksForPage := by
  have hresolve : Predicate.resolve "$.pagination" input context = input.lookup "pagination" := by
    rfl
  rw [Predicate.holds, hresolve, Test.holds, beq_true, Json.asksForPage]

/-- The tasks of reading a list. -/
def Steps.readList {σ : Type} (ctx : Context σ) (input : Json) : Act σ Json := do
  let found ← Task.select input.asksForPage ctx input
  Act.ofExcept (Task.summarizeJson found)

theorem Walk.follow_readList {σ : Type} (ctx : Context σ) (action : ctx.action = "readList")
    (traced : Bool) (fuel : Nat) (previous : String) (p : Packet) :
    (·.output) <$> follow Graph.readList .builtin ctx traced (fuel + 4) previous "ValidateInput" p =
      Steps.readList ctx p.input := by
  have hvalidate : Task.validate ctx.model.schema ctx.action p.input = .ok p.input := by
    rw [action]
    rfl
  rw [follow_taskTo rfl rfl, hvalidate, Act.ofExcept, pure_bind, follow_branch rfl,
    Predicate.holds_pagination, Steps.readList]
  simp only [Packet.advance, Packet.record]
  cases p.input.asksForPage with
  | true =>
    rw [if_pos rfl, follow_taskTo rfl rfl, map_bind]
    refine bind_congr fun found => ?_
    rw [follow_taskEnd rfl rfl, map_bind]
    exact bind_pure _
  | false =>
    rw [if_neg Bool.false_ne_true, follow_taskTo rfl rfl, map_bind]
    refine bind_congr fun found => ?_
    rw [follow_taskEnd rfl rfl, map_bind]
    exact bind_pure _

theorem Runner.runFrom_execute_readList {σ : Type} (r : Runner σ)
    (htasks : r.tasks = Tasks.builtin) {name : String} {m : Model}
    (hm : r.registry.models.get? name = some m) {input checked : Json}
    (accepted : Input.check .readList r.settings input = .ok checked) (s : σ) :
    (r.execute name "readList" input).runFrom s =
      (Steps.readList (r.context m "readList") checked).runFrom s := by
  have hfuel : Graph.readList.states.length + 1 + r.patience = r.patience + 2 + 4 := by
    rw [Nat.add_comm]
    rfl
  rw [r.runFrom_execute (a := .readList) htasks hm rfl rfl accepted, hfuel]
  exact congrArg (Act.runFrom · s) (Walk.follow_readList _ rfl ..)


/-! ## Selects with and without a page -/

namespace Store

theorem length_sorted_le {world : World} {s : Store} {op : Select} {rows : List Json}
    (h : s.sorted world op = some rows) : rows.length ≤ (s.rows op.table).length := by
  rw [(Sorter.sortRows_perm h).length_eq]
  exact List.length_filter_le _ _

/-- A page of a select is cut from what the select finds without it, and counted in all. -/
theorem select_paged {world : World} {s : Store} {op : Select} {found : Selection}
    (unpaged : op.pagination = none) (short : (s.rows op.table).length ≤ maxCount)
    (h : s.select world op = some found) (page perPage : Nat) :
    found.total = none ∧ ∃ paged,
      s.select world { op with pagination := some { page := some page, perPage } } = some paged ∧
      paged.result = pageOf found.result page perPage ∧
      paged.total = some found.result.length := by
  obtain ⟨rows, hsorted, rfl⟩ := Option.map_eq_some_iff.1 h
  have hlength : rows.length ≤ maxCount := Nat.le_trans (length_sorted_le hsorted) short
  have hcut : Store.page (some { page := some page, perPage }) rows = pageOf rows page perPage :=
    page_eq_pageOf hlength page perPage
  have hsame : s.sorted world { op with pagination := some { page := some page, perPage } } =
      some rows := hsorted
  have hwhole : Store.page op.pagination rows = rows := by
    rw [unpaged]
    rfl
  rw [select, hsame]
  refine ⟨congrArg (Option.map _) unpaged, _, rfl, ?_⟩
  simp only [selection, hcut, hwhole]
  cases op.columns with
  | none => exact ⟨rfl, rfl⟩
  | some columns => exact ⟨(pageOf_map _ _ _ _).symm, by simp⟩

end Store

namespace Query
variable {world : World} {registry : Registry} {settings : Settings}

/-- The page of a request is the page of its select and shows nowhere else. -/
theorem build_paged {σ : Type} (e : Engine σ) (m : Model) (request : Request)
    (pagination : Option PageRequest) :
    build e m { request with pagination } = (do
      let op ← build e m request
      return { op with pagination := pagination.map (·.complete e.settings.defaultPerPage) }) := by
  have hscopes : scopesOf e m { request with pagination } = scopesOf e m request := rfl
  simp only [build, hscopes, bind_assoc, pure_bind]

/-- Without expand paths a select is answered with what it finds. -/
theorem runFrom_execute_unexpanded {m : Model} {op : Select} (h : op.expand = []) {s : Store}
    {found : Selection} (hselect : s.select world op = some found) :
    (Expansion.execute (Store.engine world registry settings) m op).runFrom s =
      (.ok found, { s with log := s.log ++ [.select op] }) := by
  rw [Expansion.execute, Expansion.runFrom_fetch _ rfl _ _ hselect, h]
  rfl

/-- Where a request without a page and without expand paths finds rows, the same request with a page
finds the rows of the page, and how many there are in all. -/
theorem runFrom_select_paged {request : Request} (unpaged : request.pagination = none)
    (unexpanded : request.expand = []) {s t : Store}
    (short : ∀ table, (s.rows table).length ≤ maxCount) {name : String} {found : Selection}
    (h : (select (Store.engine world registry settings) name request).runFrom s = (.ok found, t))
    (page perPage : Nat) :
    found.total = none ∧ ∃ found' t',
      (select (Store.engine world registry settings) name
        { request with
          pagination := some { page := some page, perPage := some perPage } }).runFrom s =
        (.ok found', t') ∧
      found'.result = pageOf found.result page perPage ∧
      found'.total = some found.result.length := by
  obtain ⟨m, s', hm, h⟩ := Act.runFrom_bind_eq_ok.1 h
  rw [Act.runFrom_ofExcept, Prod.mk.injEq] at hm
  obtain ⟨hm, rfl⟩ := hm
  obtain ⟨op, u, hbuild, h⟩ := Act.runFrom_bind_eq_ok.1 h
  obtain ⟨-, hnone, hexpand⟩ := of_build hbuild
  rw [unpaged, Option.map_none] at hnone
  rw [unexpanded] at hexpand
  obtain ⟨found, hfound⟩ := Expansion.exists_select_of_fetch rfl h
  rw [runFrom_execute_unexpanded hexpand hfound] at h
  cases h
  let paged : Select := { op with pagination := some { page := some page, perPage } }
  have hpaged : (build (Store.engine world registry settings) m { request with
      pagination := some { page := some page, perPage := some perPage } }).runFrom s =
        (.ok paged, u) := by
    rw [build_paged, Act.runFrom_bind_ok hbuild]
    rfl
  -- the build may have sent subqueries, which change no table
  have hrows : u.rows = s.rows :=
    (build_sends (Store.engine world registry settings) m request).readsOnly.rows_eq hbuild
  obtain ⟨htotal, found', hfound', hresult, hcount⟩ :=
    Store.select_paged hnone (hrows ▸ short op.table) hfound page perPage
  refine ⟨htotal, found', { u with log := u.log ++ [.select paged] }, ?_, hresult, hcount⟩
  have hpaths : paged.expand = [] := hexpand
  rw [select, Act.runFrom_ofExcept_bind hm, Act.runFrom_bind_ok hpaged]
  exact runFrom_execute_unexpanded hpaths hfound'

end Query

theorem Json.asksForPage_obj (members : Members Json) :
    (Json.obj members).asksForPage = (members.get? "pagination").any (!·.isNull) := by
  have plain : Path.Plain "pagination" := ⟨by decide, by decide⟩
  rw [asksForPage, lookup_of_plain rfl plain, get?_obj]

section
variable {world : World} {registry : Registry} {settings : Settings} {m : Model}

/-- A selection that answers a request is written and summed up. -/
theorem Task.summarized_select_of (action : String) (paged : Bool) {input : Json}
    {request : Request} {found : Selection} {s t : Store}
    (hrequest : Request.ofJson input = .ok request)
    (hselect : (Query.select (Store.engine world registry settings) m.name
      { request with pagination := request.pageFor paged }).runFrom s = (.ok found, t)) :
    ∃ output, (select paged (Store.context world registry settings m action) input).runFrom s =
        (.ok output, t) ∧
      summarizeJson output =
        .ok (summaryOf settings.defaultPerPage (request.pageFor paged) found) := by
  have hanswer : (select paged (Store.context world registry settings m action) input).runFrom s =
      (.ok found.toJson, t) := by
    rw [select, Act.runFrom_ofExcept_bind hrequest]
    exact Act.runFrom_bind_ok hselect
  obtain ⟨hscopes, hpage⟩ := Query.operation_of_select hselect
  have hnull : found.operation.scopes ≠ some .null := by
    have hwritten : request.scopes ≠ some .null := Request.scopes_ne_null hrequest
    exact fun h => hwritten (hscopes ▸ h)
  refine ⟨_, hanswer, ?_⟩
  rw [summarizeJson_toJson hnull]
  exact congrArg Except.ok (summarize_eq hpage)

theorem Steps.runFrom_readList_unpaged {checked : Members Json} {output : Json} {s t : Store}
    (unpaged : ((checked.get? "pagination").getD .null).isNull = true)
    (h : (readList (Store.context world registry settings m "readList") (.obj checked)).runFrom s =
      (.ok output, t)) :
    ∃ request found, Request.ofJson (.obj checked) = .ok request ∧ request.pagination = none ∧
      (Query.select (Store.engine world registry settings) m.name request).runFrom s =
        (.ok found, t) ∧
      output = Task.summaryOf settings.defaultPerPage none found := by
  have hasks : (Json.obj checked).asksForPage = false := by
    rw [Json.asksForPage_obj]
    cases hget : checked.get? "pagination" with
    | none => rfl
    | some value =>
      rw [hget] at unpaged
      simpa using unpaged
  rw [readList, hasks] at h
  obtain ⟨written, u, hselect, h⟩ := Act.runFrom_bind_eq_ok.1 h
  obtain ⟨request, found, hrequest, hfound, hsummary⟩ := Task.summarized_select hselect
  rw [Act.runFrom_ofExcept, hsummary] at h
  cases h
  have hnone : request.pagination = none := Request.pagination_of_ofJson hrequest unpaged
  have hpage : request.pageFor false = none := hnone
  refine ⟨request, found, hrequest, hnone, ?_, ?_⟩
  · rw [hpage, ← hnone] at hfound
    exact hfound
  · rw [hpage]

/-- The list that is read with a page is the page of the list that is read without. -/
theorem Steps.runFrom_readList_paged {checked : Members Json} {request : Request}
    {found : Selection} {s t : Store} (short : ∀ table, (s.rows table).length ≤ maxCount)
    (hrequest : Request.ofJson (.obj checked) = .ok request)
    (unpaged : request.pagination = none) (unexpanded : request.expand = [])
    (hfound : (Query.select (Store.engine world registry settings) m.name request).runFrom s =
      (.ok found, t)) (page perPage : Nat) :
    found.total = none ∧ ∃ u,
      (readList (Store.context world registry settings m "readList")
        (.obj (checked.insert "pagination" (Input.pageJson page perPage)))).runFrom s =
      (.ok (listed (pageOf found.result page perPage) (some page) (some perPage)
        found.result.length), u) := by
  let paged : Request :=
    { request with pagination := some { page := some page, perPage := some perPage } }
  obtain ⟨htotal, found', u, hfound', hresult, hcount⟩ :=
    Query.runFrom_select_paged unpaged unexpanded short hfound page perPage
  have hpaged : Request.ofJson
      (.obj (checked.insert "pagination" (Input.pageJson page perPage))) = .ok paged :=
    Request.ofJson_insert_pagination hrequest page perPage
  obtain ⟨output, hselect, hsummary⟩ := Task.summarized_select_of "readList" true hpaged hfound'
  have hasks : (Json.obj (checked.insert "pagination" (Input.pageJson page perPage))).asksForPage =
      true := by
    rw [Json.asksForPage_obj, Members.get?_insert_self]
    rfl
  have hlisted : Task.summaryOf settings.defaultPerPage (paged.pageFor true) found' =
      listed (pageOf found.result page perPage) (some page) (some perPage)
        found.result.length := by
    rw [Task.summaryOf, hresult, hcount]
    rfl
  refine ⟨htotal, u, ?_⟩
  rw [readList, hasks, Act.runFrom_bind_ok hselect, Act.runFrom_ofExcept, hsummary, hlisted]

end

namespace Runner
variable {registry : Registry} {settings : Settings}

/-- The pages of a list that can be read are cut from the list, with the number of its rows. So the
pages that the rows fill are the list, and later pages are empty. -/
theorem execute_readList_pages (world : World) (patience : Nat) {name : String}
    {members : Members Json} (unpaged : ((members.get? "pagination").getD .null).isNull = true)
    (unexpanded : Input.isBlank (members.get? "expand") = true) {s t : Store}
    (short : ∀ table, (s.rows table).length < 2 ^ 64) {output : Json}
    (answered : ((Store.runner world registry settings patience).execute name "readList"
      (.obj members)).runFrom s = (.ok output, t)) :
    ∃ rows, output = listed rows none none rows.length ∧
      (∀ page perPage, 1 ≤ page → 1 ≤ perPage → perPage ≤ settings.maxPerPage →
        ∃ u, ((Store.runner world registry settings patience).execute name "readList"
          (.obj (members.insert "pagination" (Input.pageJson page perPage)))).runFrom s =
            (.ok (listed (pageOf rows page perPage) (some page) (some perPage) rows.length), u)) ∧
      ∀ perPage, 1 ≤ perPage →
        (List.range' 1 (pagesOf rows perPage)).flatMap (pageOf rows · perPage) = rows ∧
        ∀ page, pagesOf rows perPage < page → pageOf rows page perPage = [] := by
  let r := Store.runner world registry settings patience
  obtain ⟨m, y, hm, accepted⟩ := accepted_of_execute answered
  replace accepted : Input.check .readList settings (.obj members) = .ok y := accepted
  obtain ⟨checked, rfl, hexpand, hsame⟩ := Input.members_of_check_readList accepted
  -- the check leaves the two members alone, so that the request has neither page nor paths
  have hpagination : checked.get? "pagination" = members.get? "pagination" :=
    hsame _ (by decide) (by decide)
  have hpaths : checked.get? "expand" = none ∨ checked.get? "expand" = some (.arr []) := by
    apply Input.expand_of_blank hexpand
    rw [hsame _ (by decide) (by decide)]
    exact unexpanded
  have short' : ∀ table, (s.rows table).length ≤ maxCount :=
    fun table => Nat.le_of_lt_succ (short table)
  rw [r.runFrom_execute_readList rfl hm accepted] at answered
  obtain ⟨request, found, hrequest, hnone, hfound, houtput⟩ :=
    Steps.runFrom_readList_unpaged (hpagination ▸ unpaged) answered
  have hread := Steps.runFrom_readList_paged short' hrequest hnone
    (Request.expand_of_ofJson hrequest hpaths) hfound
  obtain ⟨htotal, -⟩ := hread 1 1
  refine ⟨found.result, ?_, fun page perPage hpage hperPage hmost => ?_, fun perPage hperPage => ?_⟩
  · rw [houtput, Task.summaryOf, htotal]
    rfl
  · rw [r.runFrom_execute_readList rfl hm
      (Input.check_readList_insert accepted hpage hperPage hmost)]
    exact (hread page perPage).2
  · exact ⟨flatMap_pageOf_pagesOf found.result hperPage,
      fun page => pageOf_of_pagesOf_lt found.result hperPage⟩

end Runner

/-! ## An example: the posts of an author, newest first -/

namespace Blog

def postOf (author id : String) : Json := .obj [("author_id", .str author), ("id", .str id)]

def postsStore : Store where
  rows table :=
    if table = "posts" then [postOf "a" "p", postOf "a" "q", postOf "b" "r", postOf "a" "s"] else []

/-- The posts of an author, the last key first. -/
def latestPosts : Members Json :=
  [("filters", .obj [("author_id", .str "a")]),
    ("sorts", .arr [.obj [("attribute", .str "id"), ("direction", .str "DESC")]])]

theorem postsStore_short (table : String) : (postsStore.rows table).length < 2 ^ 64 := by
  unfold postsStore
  dsimp only
  split <;> decide

def latest : List Json := [postOf "a" "s", postOf "a" "q", postOf "a" "p"]

theorem execute_latestPosts :
    (((Store.runner world registry {} 0).execute "post" "readList" (.obj latestPosts)).runFrom
      postsStore).1 = .ok (listed latest none none 3) := by
  cbv

theorem pages_of_latestPosts :
    ((latestPosts.get? "pagination").getD .null).isNull = true ∧
    Input.isBlank (latestPosts.get? "expand") = true ∧
    (∀ table, (postsStore.rows table).length < 2 ^ 64) ∧
    (∃ t, ((Store.runner world registry {} 0).execute "post" "readList"
      (.obj latestPosts)).runFrom postsStore = (.ok (listed latest none none 3), t)) ∧
    (∀ page perPage, 1 ≤ page → 1 ≤ perPage → perPage ≤ 500 →
      ∃ u, ((Store.runner world registry {} 0).execute "post" "readList"
        (.obj (latestPosts.insert "pagination" (Input.pageJson page perPage)))).runFrom
          postsStore =
        (.ok (listed (pageOf latest page perPage) (some page) (some perPage) 3), u)) ∧
    ∀ perPage, 1 ≤ perPage →
      (List.range' 1 (pagesOf latest perPage)).flatMap (pageOf latest · perPage) = latest ∧
      ∀ page, pagesOf latest perPage < page → pageOf latest page perPage = [] := by
  have unpaged : ((latestPosts.get? "pagination").getD .null).isNull = true := rfl
  have unexpanded : Input.isBlank (latestPosts.get? "expand") = true := rfl
  obtain ⟨t, hrun⟩ : ∃ t, ((Store.runner world registry {} 0).execute "post" "readList"
      (.obj latestPosts)).runFrom postsStore = (.ok (listed latest none none 3), t) :=
    ⟨_, Prod.ext execute_latestPosts rfl⟩
  obtain ⟨rows, hrows, hpages, htiles⟩ :=
    Runner.execute_readList_pages world 0 unpaged unexpanded postsStore_short hrun
  obtain rfl : latest = rows := by
    simp only [listed, Json.obj.injEq, List.cons.injEq, Prod.mk.injEq, Json.arr.injEq] at hrows
    exact hrows.1.2
  exact ⟨unpaged, unexpanded, postsStore_short, ⟨t, hrun⟩, hpages, htiles⟩

end Blog
end ModelActions
