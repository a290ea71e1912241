import ModelActions.Proofs.CheckedInputs
import ModelActions.Query.Request

/-!
# Inputs with a page

The check of an input and the reading of a request look at each member by itself. So a page may be
put into an input that is accepted without one, and into the request that it means.
-/
namespace ModelActions

namespace Input
variable {settings : Settings} {members checked : Members Json} {key : String}

theorem canonicalSorts_insert (h : key ≠ "sorts") (value : Json) :
    canonicalSorts (members.insert key value) =
      (canonicalSorts members).map (·.insert key value) := by
  unfold canonicalSorts
  rw [Members.get?_insert_of_ne members value h.symm]
  split
  · rfl
  · next sorts _ =>
    cases canonicalSortList 0 sorts with
    | error e => rfl
    | ok sorted => exact congrArg Except.ok (Members.insert_comm members h value (.arr sorted))
  · rfl

theorem canonicalFilter_insert {filter : String} (h : filter < key) (value : Json) :
    canonicalFilter filter (members.insert key value) =
      (canonicalFilter filter members).map (·.insert key value) := by
  have hne : key ≠ filter := fun he => String.lt_irrefl _ (he ▸ h)
  unfold canonicalFilter
  rw [Members.get?_insert_of_ne members value hne.symm]
  split
  · rfl
  · next written _ =>
    cases (Filter.parse written).mapError (Error.mapField (placeUnder filter)) with
    | error e => rfl
    | ok parsed =>
      cases parsed with
      -- a removed filter stands before the key, so that the key keeps its place
      | none => exact congrArg Except.ok (Members.erase_insert_comm members h value)
      | some g => exact congrArg Except.ok (Members.insert_comm members hne value g.toJson)

theorem checkExpand_insert (h : key ≠ "expand") (value : Json) :
    checkExpand settings (members.insert key value) = checkExpand settings members := by
  rw [checkExpand, Members.get?_insert_of_ne members value h.symm, checkExpand]

theorem canonicalSorts_cases (h : canonicalSorts members = .ok checked) :
    (members.get? "sorts" = none ∧ checked = members) ∨
      ∃ sorts sorts', members.get? "sorts" = some (.arr sorts) ∧
        canonicalSortList 0 sorts = .ok sorts' ∧
        checked = members.insert "sorts" (.arr sorts') := by
  unfold canonicalSorts at h
  split at h
  · next hget =>
    cases h
    exact .inl ⟨hget, rfl⟩
  · next sorts hget =>
    obtain ⟨sorts', hsorts, h⟩ := bind_eq_ok.1 h
    cases h
    exact .inr ⟨sorts, sorts', hget, hsorts, rfl⟩
  · cases h

theorem get?_of_canonicalSorts (h : canonicalSorts members = .ok checked) (hkey : key ≠ "sorts") :
    checked.get? key = members.get? key := by
  obtain ⟨-, rfl⟩ | ⟨sorts, sorts', -, -, rfl⟩ := canonicalSorts_cases h
  · rfl
  · exact Members.get?_insert_of_ne members _ hkey

theorem get?_of_canonicalFilter {filter : String} (h : canonicalFilter filter members = .ok checked)
    (hkey : key ≠ filter) : checked.get? key = members.get? key := by
  obtain ⟨-, rfl⟩ | ⟨written, g, -, -, rfl⟩ | ⟨written, -, -, rfl⟩ := canonicalFilter_cases h
  · rfl
  · exact Members.get?_insert_of_ne members _ hkey
  · rw [Members.get?_erase, if_neg hkey]

/-- A page that is asked for, as JSON. -/
def pageJson (page perPage : Nat) : Json :=
  .obj [("page", .ofNat page), ("per_page", .ofNat perPage)]

theorem checkPagination_insert {page perPage : Nat} (hpage : 1 ≤ page) (hperPage : 1 ≤ perPage)
    (hmost : perPage ≤ settings.maxPerPage) :
    checkPagination settings (members.insert "pagination" (pageJson page perPage)) = .ok () := by
  obtain ⟨page, rfl⟩ : ∃ k, page = k + 1 := ⟨page - 1, by omega⟩
  obtain ⟨perPage, rfl⟩ : ∃ k, perPage = k + 1 := ⟨perPage - 1, by omega⟩
  have hfirst : checkCount [("page", .ofNat (page + 1)), ("per_page", .ofNat (perPage + 1))] "page"
      none = .ok () := rfl
  have hsecond : checkCount [("page", .ofNat (page + 1)), ("per_page", .ofNat (perPage + 1))]
      "per_page" (some settings.maxPerPage) = .ok () := by
    have hlimit : ¬settings.maxPerPage < perPage + 1 := by omega
    exact if_neg hlimit
  rw [checkPagination, Members.get?_insert_self]
  exact bind_eq_ok.2 ⟨(), hfirst, hsecond⟩

theorem check_readList_eq_ok {y : Json} :
    check .readList settings (.obj members) = .ok y ↔
      checkPagination settings members = .ok () ∧ ∃ sorted checked : Members Json,
        canonicalSorts members = .ok sorted ∧ checkExpand settings sorted = .ok () ∧
        canonicalFilter "filters" sorted = .ok checked ∧ y = .obj checked := by
  constructor
  · intro h
    obtain ⟨_, hmembers, h⟩ := bind_eq_ok.1 h
    cases hmembers
    obtain ⟨_, hpagination, h⟩ := bind_eq_ok.1 h
    obtain ⟨sorted, hsorted, h⟩ := bind_eq_ok.1 h
    obtain ⟨_, hexpand, h⟩ := bind_eq_ok.1 h
    obtain ⟨checked, hchecked, h⟩ := bind_eq_ok.1 h
    cases h
    exact ⟨hpagination, sorted, checked, hsorted, hexpand, hchecked, rfl⟩
  · rintro ⟨hpagination, sorted, checked, hsorted, hexpand, hchecked, rfl⟩
    exact bind_eq_ok.2 ⟨members, rfl, bind_eq_ok.2 ⟨(), hpagination, bind_eq_ok.2 ⟨sorted, hsorted,
      bind_eq_ok.2 ⟨(), hexpand, bind_eq_ok.2 ⟨checked, hchecked, rfl⟩⟩⟩⟩⟩

/-- The check leaves everything but sorts and filters as it is. -/
theorem members_of_check_readList {y : Json}
    (h : check .readList settings (.obj members) = .ok y) :
    ∃ checked : Members Json, y = .obj checked ∧ checkExpand settings checked = .ok () ∧
      ∀ key, key ≠ "sorts" → key ≠ "filters" → checked.get? key = members.get? key := by
  obtain ⟨-, sorted, checked, hsorted, hexpand, hchecked, rfl⟩ := check_readList_eq_ok.1 h
  refine ⟨checked, rfl, ?_, fun key hsorts hfilters => ?_⟩
  · rw [checkExpand, get?_of_canonicalFilter hchecked (by decide)]
    exact hexpand
  · rw [get?_of_canonicalFilter hchecked hfilters, get?_of_canonicalSorts hsorted hsorts]

/-- An input that is accepted is accepted with a page as well, which stays as it is. -/
theorem check_readList_insert (h : check .readList settings (.obj members) = .ok (.obj checked))
    {page perPage : Nat} (hpage : 1 ≤ page) (hperPage : 1 ≤ perPage)
    (hmost : perPage ≤ settings.maxPerPage) :
    check .readList settings (.obj (members.insert "pagination" (pageJson page perPage))) =
      .ok (.obj (checked.insert "pagination" (pageJson page perPage))) := by
  obtain ⟨-, sorted, checked', hsorted, hexpand, hchecked, he⟩ := check_readList_eq_ok.1 h
  cases he
  apply check_readList_eq_ok.2
  refine ⟨checkPagination_insert hpage hperPage hmost,
    sorted.insert "pagination" (pageJson page perPage), _, ?_, ?_, ?_, rfl⟩
  · rw [canonicalSorts_insert (by decide), hsorted]
    rfl
  · rw [checkExpand_insert (by decide)]
    exact hexpand
  · rw [canonicalFilter_insert (by decide), hchecked]
    rfl

/-- Where there are no expand paths, the member is absent or an empty list. -/
theorem expand_of_blank (h : checkExpand settings members = .ok ())
    (blank : isBlank (members.get? "expand") = true) :
    members.get? "expand" = none ∨ members.get? "expand" = some (.arr []) := by
  unfold checkExpand at h
  split at h
  · next hget => exact .inl hget
  · next paths hget =>
    rw [hget] at blank ⊢
    exact .inr (by simpa [isBlank] using blank)
  · cases h

end Input

namespace Members

theorem optional_insert_of_ne {α : Type} (ms : Members Json) {key other : String}
    (h : other ≠ key) (value : Json) (read : Json → Option α) :
    (ms.insert key value).optional other read = ms.optional other read := by
  rw [optional, get?_insert_of_ne ms value h, optional]

theorem defaulted_insert_of_ne {α : Type} (ms : Members Json) {key other : String}
    (h : other ≠ key) (value : Json) (read : Json → Option α) (default : α) :
    (ms.insert key value).defaulted other read default = ms.defaulted other read default := by
  rw [defaulted, get?_insert_of_ne ms value h, defaulted]

end Members

namespace Request
variable {members : Members Json} {request : Request}

/-- The fields of a request are read one by one. -/
theorem ofJson_obj_eq_ok :
    ofJson (.obj members) = .ok request ↔
      members.defaulted "filters" some .null = some request.filters ∧
      members.optional "scopes" some = some request.scopes ∧
      members.defaulted "sorts" (Json.listOf SortKey.ofJson?) [] = some request.sorts ∧
      members.optional "pagination" PageRequest.ofJson? = some request.pagination ∧
      members.optional "attributes" (Json.listOf Json.string?) = some request.columns ∧
      members.defaulted "expand" (Json.listOf Json.string?) [] = some request.expand ∧
      members.defaulted "joins" (Json.listOf Json.string?) [] = some request.joins ∧
      members.optional "view" Json.string? = some request.view ∧
      members.optional "purpose" Json.string? = some request.purpose := by
  have hread : ofJson (.obj members) = .ok request ↔ ofJson? (.obj members) = some request := by
    unfold ofJson
    cases ofJson? (.obj members) <;> simp
  have hrecord : (Json.obj members).record? fields = some members := rfl
  rw [hread]
  simp only [ofJson?, hrecord, Option.bind_eq_bind, Option.bind_eq_some_iff, Option.some.injEq,
    exists_eq_left']
  constructor
  · rintro ⟨filters, hfilters, scopes, hscopes, sorts, hsorts, pagination, hpagination, columns,
      hcolumns, expand, hexpand, joins, hjoins, view, hview, purpose, hpurpose, h⟩
    cases h
    exact ⟨hfilters, hscopes, hsorts, hpagination, hcolumns, hexpand, hjoins, hview, hpurpose⟩
  · rintro ⟨hfilters, hscopes, hsorts, hpagination, hcolumns, hexpand, hjoins, hview, hpurpose⟩
    exact ⟨_, hfilters, _, hscopes, _, hsorts, _, hpagination, _, hcolumns, _, hexpand, _, hjoins,
      _, hview, _, hpurpose, rfl⟩

/-- A request that was read is read with a page as well. -/
theorem ofJson_insert_pagination (h : ofJson (.obj members) = .ok request) (page perPage : Nat) :
    ofJson (.obj (members.insert "pagination" (Input.pageJson page perPage))) =
      .ok { request with pagination := some { page := some page, perPage := some perPage } } := by
  have hpage : (members.insert "pagination" (Input.pageJson page perPage)).optional "pagination"
      PageRequest.ofJson? = some (some { page := some page, perPage := some perPage }) := by
    rw [Members.optional, Members.get?_insert_self]
    rfl
  obtain ⟨hfilters, hscopes, hsorts, -, hcolumns, hexpand, hjoins, hview, hpurpose⟩ :=
    ofJson_obj_eq_ok.1 h
  refine ofJson_obj_eq_ok.2 ⟨?_, ?_, ?_, hpage, ?_, ?_, ?_, ?_, ?_⟩
  · rwa [Members.defaulted_insert_of_ne _ (by decide)]
  · rwa [Members.optional_insert_of_ne _ (by decide)]
  · rwa [Members.defaulted_insert_of_ne _ (by decide)]
  · rwa [Members.optional_insert_of_ne _ (by decide)]
  · rwa [Members.defaulted_insert_of_ne _ (by decide)]
  · rwa [Members.defaulted_insert_of_ne _ (by decide)]
  · rwa [Members.optional_insert_of_ne _ (by decide)]
  · rwa [Members.optional_insert_of_ne _ (by decide)]

theorem pagination_of_ofJson (h : ofJson (.obj members) = .ok request)
    (unpaged : ((members.get? "pagination").getD .null).isNull = true) :
    request.pagination = none := by
  obtain ⟨-, -, -, hpagination, -⟩ := ofJson_obj_eq_ok.1 h
  unfold Members.optional at hpagination
  cases hget : members.get? "pagination" with
  | none =>
    rw [hget] at hpagination
    exact (Option.some.inj hpagination).symm
  | some value =>
    rw [hget] at unpaged hpagination
    cases value with
    | null => exact (Option.some.inj hpagination).symm
    | _ => cases unpaged

theorem expand_of_ofJson (h : ofJson (.obj members) = .ok request)
    (hexpand : members.get? "expand" = none ∨ members.get? "expand" = some (.arr [])) :
    request.expand = [] := by
  obtain ⟨-, -, -, -, -, hread, -⟩ := ofJson_obj_eq_ok.1 h
  unfold Members.defaulted at hread
  rcases hexpand with hget | hget
  · rw [hget] at hread
    exact (Option.some.inj hread).symm
  · rw [hget] at hread
    exact (Option.some.inj hread).symm

end Request

end ModelActions
