import ModelActions.Proofs.BatchedExpansion
import ModelActions.Proofs.OperationForms

/-!
# Selections that are passed on

Reading a list of rows takes two tasks: one writes the selection that the operator answers as JSON,
the next reads it and sums it up. Nothing is lost between them.
-/
namespace ModelActions

namespace Request

/-- The page that is sent for a request; where pages are wanted and it names none, the first. -/
def pageFor (paged : Bool) (r : Request) : Option PageRequest :=
  if paged then r.pagination.or (some {}) else r.pagination

/-- A request that was read has no scopes that are null. -/
theorem scopes_ne_null {input : Json} {request : Request} (h : ofJson input = .ok request) :
    request.scopes ≠ some .null := by
  unfold ofJson at h
  split at h
  · next r hr =>
    cases h
    simp only [ofJson?, Option.bind_eq_bind, Option.bind_eq_some_iff] at hr
    obtain ⟨r, -, filters, -, scopes, hscopes, sorts, -, pagination, -, columns, -, expand, -,
      joins, -, view, -, purpose, -, hr⟩ := hr
    cases hr
    rintro rfl
    unfold Members.optional at hscopes
    split at hscopes
    · cases hscopes
    · next j _ => cases j <;> cases hscopes
  · cases h

end Request

section
variable {world : World} {registry : Registry} {settings : Settings} {m : Model} {s t : Store}

/-- A store echoes the select that it answers, and expansion keeps the echo. -/
theorem Expansion.operation_of_execute {op : Select} {found : Selection}
    (h : (execute (Store.engine world registry settings) m op).runFrom s = (.ok found, t)) :
    found.operation = op := by
  obtain ⟨answered, hselect⟩ := exists_select_of_fetch rfl h
  rw [execute, runFrom_fetch _ rfl _ _ hselect] at h
  obtain ⟨rows, -, rfl⟩ := Option.map_eq_some_iff.1 hselect
  split at h
  · cases h
    rfl
  · split at h
    · cases h
    · obtain ⟨rows, u, -, h⟩ := Act.runFrom_bind_eq_ok.1 h
      cases h
      rfl

namespace Query

theorem of_build {σ : Type} {e : Engine σ} {request : Request} {op : Select} {s t : σ}
    (h : (build e m request).runFrom s = (.ok op, t)) :
    op.scopes = request.scopes ∧
      op.pagination = request.pagination.map (·.complete e.settings.defaultPerPage) ∧
      op.expand = request.expand := by
  obtain ⟨written, _, -, h⟩ := Act.runFrom_bind_eq_ok.1 h
  obtain ⟨named, _, -, h⟩ := Act.runFrom_bind_eq_ok.1 h
  obtain ⟨filters, _, -, h⟩ := Act.runFrom_bind_eq_ok.1 h
  obtain ⟨_, _, -, h⟩ := Act.runFrom_bind_eq_ok.1 h
  obtain ⟨joins, _, -, h⟩ := Act.runFrom_bind_eq_ok.1 h
  cases h
  exact ⟨rfl, rfl, rfl⟩

/-- A selection from a store echoes the scopes and the page of the request. -/
theorem operation_of_select {name : String} {request : Request} {found : Selection}
    (h : (select (Store.engine world registry settings) name request).runFrom s = (.ok found, t)) :
    found.operation.scopes = request.scopes ∧
      found.operation.pagination = request.pagination.map (·.complete settings.defaultPerPage) := by
  obtain ⟨m, _, -, h⟩ := Act.runFrom_bind_eq_ok.1 h
  obtain ⟨op, u, hbuild, h⟩ := Act.runFrom_bind_eq_ok.1 h
  obtain ⟨hscopes, hpagination, -⟩ := of_build hbuild
  rw [Expansion.operation_of_execute h]
  exact ⟨hscopes, hpagination⟩

end Query

namespace Task

/-- A selection is summed up from its JSON as it is. -/
theorem summarizeJson_toJson {found : Selection} (scopes : found.operation.scopes ≠ some .null) :
    summarizeJson found.toJson = .ok (summarize found) := by
  rw [summarizeJson, found.ofJson?_toJson scopes]

/-- The rows of a selection and where they stand in the whole, for a page that was sent. -/
def summaryOf (perPage : Nat) (page : Option PageRequest) (found : Selection) : Json :=
  .obj [("data", .arr found.result),
    ("meta", .obj [
      ("count", .ofNat found.result.length),
      ("page", .ofOption (fun p => .ofNat (p.page.getD 1)) page),
      ("per_page", .ofOption (fun p => .ofNat (p.perPage.getD perPage)) page),
      ("total", .ofNat (found.total.getD found.result.length))])]

theorem summarize_eq {found : Selection} {perPage : Nat} {page : Option PageRequest}
    (h : found.operation.pagination = page.map (·.complete perPage)) :
    summarize found = summaryOf perPage page found := by
  rw [summarize, summaryOf, h]
  cases page <;> rfl

theorem summarized_select {action : String} {paged : Bool} {input output : Json}
    (h : (select paged (Store.context world registry settings m action) input).runFrom s =
      (.ok output, t)) :
    ∃ request found, Request.ofJson input = .ok request ∧
      (Query.select (Store.engine world registry settings) m.name
        { request with pagination := request.pageFor paged }).runFrom s = (.ok found, t) ∧
      summarizeJson output =
        .ok (summaryOf settings.defaultPerPage (request.pageFor paged) found) := by
  obtain ⟨request, s₁, hrequest, h⟩ := Act.runFrom_bind_eq_ok.1 h
  rw [Act.runFrom_ofExcept, Prod.mk.injEq] at hrequest
  obtain ⟨hrequest, rfl⟩ := hrequest
  obtain ⟨found, u, hselect, h⟩ := Act.runFrom_bind_eq_ok.1 h
  cases h
  obtain ⟨hscopes, hpage⟩ := Query.operation_of_select hselect
  have hnull : request.scopes ≠ some .null := Request.scopes_ne_null hrequest
  replace hscopes : found.operation.scopes = request.scopes := hscopes
  refine ⟨request, found, hrequest, hselect, ?_⟩
  rw [summarizeJson_toJson (hscopes ▸ hnull)]
  exact congrArg Except.ok (summarize_eq hpage)

end Task
end

/-- Operations and selections are read from their JSON as what they are, unless they have scopes
that are null. So whatever a store answers a request with, it is summed up as it is. -/
theorem operations_read_back :
    (∀ op : Operation, op.scopes? ≠ some .null → Operation.ofJson? op.toJson = some op) ∧
    (∀ found : Selection, found.operation.scopes ≠ some .null →
      Selection.ofJson? found.toJson = some found) ∧
    ∀ (world : World) (registry : Registry) (settings : Settings) (m : Model) (action : String)
      (paged : Bool) (input output : Json) (s t : Store),
      (Task.select paged (Store.context world registry settings m action) input).runFrom s =
        (.ok output, t) →
      ∃ request found, Request.ofJson input = .ok request ∧
        (Query.select (Store.engine world registry settings) m.name
          { request with pagination := request.pageFor paged }).runFrom s = (.ok found, t) ∧
        Task.summarizeJson output =
          .ok (Task.summaryOf settings.defaultPerPage (request.pageFor paged) found) :=
  ⟨fun op => op.ofJson?_toJson, fun found => found.ofJson?_toJson,
    fun _ _ _ _ _ _ _ _ _ _ => Task.summarized_select⟩

namespace Blog

/-- The second page of the posts without a title, and of the posts that an empty group selects, with
the echo of a scope. -/
def recentPosts : Select where
  table := "posts"
  model := "post"
  filters := some (.or [.condition ⟨"title", .is, .null⟩, .group .and []])
  sorts := [⟨"id", .desc⟩]
  pagination := some { page := some 2, perPage := 10 }
  scopes := some (.str "recent")

theorem recentPosts_read_back :
    (recentPosts.scopes ≠ some .null ∧
      Operation.ofJson? (Operation.select recentPosts).toJson = some (.select recentPosts)) ∧
    Selection.ofJson? (Store.selection recentPosts (store.found recentPosts)).toJson =
      some (Store.selection recentPosts (store.found recentPosts)) ∧
    ∃ output t, (Task.select true (Store.context world registry {} post "readList")
        (.obj [])).runFrom store = (.ok output, t) ∧
      ∃ request found, Request.ofJson (.obj []) = .ok request ∧
        (Query.select (Store.engine world registry {}) "post"
          { request with pagination := request.pageFor true }).runFrom store = (.ok found, t) ∧
        Task.summarizeJson output = .ok (Task.summaryOf 25 (request.pageFor true) found) := by
  have hscopes : recentPosts.scopes ≠ some .null := by simp [recentPosts]
  obtain ⟨hoperation, hselection, hrun⟩ := operations_read_back
  refine ⟨⟨hscopes, hoperation (.select recentPosts) hscopes⟩, hselection _ hscopes, ?_⟩
  have hpage : ((Task.select true (Store.context world registry {} post "readList")
      (.obj [])).runFrom store).1.isOk = true := by decide +kernel
  rcases hanswer : (Task.select true (Store.context world registry {} post "readList")
      (.obj [])).runFrom store with ⟨_ | output, t⟩
  · rw [hanswer] at hpage
    cases hpage
  · exact ⟨output, t, rfl,
      hrun world registry {} post "readList" true (.obj []) output store t hanswer⟩

end Blog
end ModelActions
