import ModelActions.Proofs.RecordForms
import ModelActions.Proofs.RepeatedChecks

/-!
# Accepted requests

The check of an input for reading rows looks at filters, sort keys, pages and expand paths, and the
reader of requests at every member. An input that passes the check is read, and as a request that
says what the input says, unless a member that the check leaves alone is not of its type.
-/
namespace ModelActions

/-! ## Members -/

section
variable {α : Type} {encode : α → Json} {r : Members Json} {key : String}

/-- A member that may be absent or null, and what it holds. -/
inductive MayHold (encode : α → Json) : Option Json → Option α → Prop
  | absent : MayHold encode none none
  | null : MayHold encode (some .null) none
  | holds (a : α) : MayHold encode (some (encode a)) (some a)

/-- A member that is absent or a list of strings, and these strings. -/
inductive MayList : Option Json → List String → Prop
  | absent : MayList none []
  | lists (ss : List String) : MayList (some (.ofStrings ss)) ss

theorem MayHold.optional_eq {o : Option α} (h : MayHold encode (r.get? key) o)
    (read : Json → Option α) (hread : ∀ a, (encode a).orNull read = some (some a)) :
    r.optional key read = some o := by
  unfold Members.optional
  generalize r.get? key = j at h ⊢
  cases h with
  | absent => rfl
  | null => rfl
  | holds a => exact hread a

theorem MayList.defaulted_eq {ss : List String} (h : MayList (r.get? key) ss) :
    r.defaulted key (Json.listOf Json.string?) [] = some ss := by
  unfold Members.defaulted
  generalize r.get? key = j at h ⊢
  cases h with
  | absent => rfl
  | lists => exact Json.listOf_ofStrings ss

end

/-- A member that is not looked into is read as it stands, but null as absent. -/
theorem Members.optional_any (r : Members Json) (key : String) :
    r.optional key some = some ((r.get? key).filter fun j => !j.isNull) := by
  unfold Members.optional
  cases r.get? key with
  | none => rfl
  | some j => cases j <;> rfl

theorem Members.defaulted_any (r : Members Json) (key : String) (default : Json) :
    r.defaulted key some default = some ((r.get? key).getD default) := by
  unfold Members.defaulted
  cases r.get? key <;> rfl

/-! ## Sort keys and pages -/

/-- A sort key is that of its JSON, in whichever letters the direction is written there. -/
structure SortKey.Said (k : SortKey) (sort : Json) : Prop where
  column : sort.get? "attribute" = some (.str k.column)
  direction : ∃ text, sort.get? "direction" = some (.str text) ∧
    k.direction.name = text.map Char.toLower

inductive SortsSaid : Option Json → List SortKey → Prop
  | absent : SortsSaid none []
  | listed {sorts : List Json} {keys : List SortKey}
    (each : List.Forall₂ (fun k sort => k.Said sort) keys sorts) :
    SortsSaid (some (.arr sorts)) keys

/-- The page of a request is that of the input, where there is one. -/
inductive PageSaid : Option Json → Option PageRequest → Prop
  | absent : PageSaid none none
  | null : PageSaid (some .null) none
  | asked {members : Members Json} {p : PageRequest}
    (page : MayHold .ofNat (members.get? "page") p.page)
    (perPage : MayHold .ofNat (members.get? "per_page") p.perPage)
    (cursor : MayHold .str (members.get? "cursor") p.cursor) :
    PageSaid (some (.obj members)) (some p)

theorem PageSaid.optional_eq {r : Members Json} {p : Option PageRequest}
    (h : PageSaid (r.get? "pagination") p) :
    r.optional "pagination" PageRequest.ofJson? = some p := by
  unfold Members.optional
  generalize r.get? "pagination" = j at h ⊢
  cases h with
  | absent => rfl
  | null => rfl
  | @asked members p page perPage cursor =>
    have hread : PageRequest.ofJson? (.obj members) = some p := by
      have hrecord : (Json.obj members).record? PageRequest.fields = some members := rfl
      simp only [PageRequest.ofJson?, hrecord, Option.bind_eq_bind, Option.bind_some,
        page.optional_eq Json.count? fun _ => rfl, perPage.optional_eq Json.count? fun _ => rfl,
        cursor.optional_eq Json.string? fun _ => rfl]
      rfl
    exact Json.orNull_eq _ hread rfl

namespace Input
variable {settings : Settings} {members checked : Members Json}

theorem said_of_canonicalSort {place : String} {sort sort' : Json}
    (h : canonicalSort place sort = .ok sort') :
    ∃ k : SortKey, k.Said sort ∧ SortKey.ofJson? sort' = some k := by
  obtain ⟨members, column, direction, d, rfl, hcolumn, -, hdirection, hd, rfl⟩ :=
    canonicalSort_eq_ok.1 h
  refine ⟨⟨column, d⟩, ⟨hcolumn, direction, hdirection, SortDirection.name_of_ofName? hd⟩, ?_⟩
  have hrecord : (Json.obj (members.insert "direction" (.str d.name))).record? SortKey.fields =
      some (members.insert "direction" (.str d.name)) := rfl
  have hcolumn' : (members.insert "direction" (.str d.name)).get? "attribute" =
      some (.str column) := (Members.get?_insert_of_ne members _ (by decide)).trans hcolumn
  have hread : SortDirection.ofJson? (.str d.name) = some d := SortDirection.ofName?_name d
  simp only [SortKey.ofJson?, hrecord, Option.bind_eq_bind, Option.bind_some,
    Members.required_eq Json.string? hcolumn' rfl,
    Members.required_eq SortDirection.ofJson? (Members.get?_insert_self ..) hread]
  rfl

theorem said_of_canonicalSortList {i : Nat} {sorts sorts' : List Json}
    (h : canonicalSortList i sorts = .ok sorts') :
    ∃ keys : List SortKey, List.Forall₂ (fun k sort => k.Said sort) keys sorts ∧
      Json.listOf SortKey.ofJson? (.arr sorts') = some keys := by
  induction sorts generalizing i sorts' with
  | nil =>
    cases h
    exact ⟨[], .nil, rfl⟩
  | cons sort sorts ih =>
    rw [canonicalSortList] at h
    obtain ⟨first, hfirst, h⟩ := bind_eq_ok.1 h
    obtain ⟨later, hlater, h⟩ := bind_eq_ok.1 h
    cases h
    obtain ⟨k, hk, hread⟩ := said_of_canonicalSort hfirst
    obtain ⟨ks, hks, hreads⟩ := ih hlater
    refine ⟨k :: ks, .cons hk hks, ?_⟩
    rw [Json.listOf] at hreads ⊢
    rw [List.mapM_cons, hread, hreads]
    rfl

theorem said_of_canonicalSorts (h : canonicalSorts members = .ok checked) :
    ∃ keys, SortsSaid (members.get? "sorts") keys ∧
      checked.defaulted "sorts" (Json.listOf SortKey.ofJson?) [] = some keys := by
  obtain ⟨hget, rfl⟩ | ⟨sorts, sorts', hget, hsorts, rfl⟩ := canonicalSorts_cases h
  · refine ⟨[], hget ▸ .absent, ?_⟩
    rw [Members.defaulted, hget]
  · obtain ⟨keys, hkeys, hread⟩ := said_of_canonicalSortList hsorts
    exact ⟨keys, hget ▸ .listed hkeys, Members.defaulted_eq _ _ (Members.get?_insert_self ..) hread⟩

theorem mayHold_of_checkCount {pagination : Members Json} {key : String} {limit : Option Nat}
    (h : checkCount pagination key limit = .ok ()) :
    ∃ count, MayHold .ofNat (pagination.get? key) count := by
  unfold checkCount at h
  split at h
  · next hget => exact ⟨none, hget ▸ .absent⟩
  · next hget => exact ⟨none, hget ▸ .null⟩
  · next value _ hget =>
    cases hcount : value.count? with
    | none =>
      rw [hcount] at h
      cases h
    | some n =>
      refine ⟨some n, ?_⟩
      rw [hget]
      unfold Json.count? at hcount
      split at hcount
      · cases hcount
        exact .holds n
      · cases hcount

theorem said_of_checkPagination (h : checkPagination settings members = .ok ())
    (cursor : ∃ cursor, MayHold .str
      (((members.get? "pagination").getD .null).get? "cursor") cursor) :
    ∃ page, PageSaid (members.get? "pagination") page := by
  unfold checkPagination at h
  split at h
  · next hget => exact ⟨none, hget ▸ .absent⟩
  · next hget => exact ⟨none, hget ▸ .null⟩
  · next pagination hget =>
    obtain ⟨_, hpage, hperPage⟩ := bind_eq_ok.1 h
    obtain ⟨page, hpage⟩ := mayHold_of_checkCount hpage
    obtain ⟨perPage, hperPage⟩ := mayHold_of_checkCount hperPage
    rw [hget] at cursor ⊢
    obtain ⟨cursor, hcursor⟩ := cursor
    exact ⟨some ⟨page, perPage, cursor⟩, .asked hpage hperPage hcursor⟩
  · cases h

theorem paths_of_checkPaths {i : Nat} {items : List Json}
    (h : checkPaths settings i items = .ok ()) :
    ∃ paths : List String, items = paths.map .str ∧
      ∀ path ∈ paths, Path.length path ≤ settings.maxExpandDepth := by
  induction items generalizing i with
  | nil => exact ⟨[], rfl, nofun⟩
  | cons item items ih =>
    cases item with
    | str path =>
      rw [checkPaths] at h
      split at h
      · cases h
      · next hlength =>
        obtain ⟨paths, rfl, hpaths⟩ := ih h
        exact ⟨path :: paths, rfl, List.forall_mem_cons.2 ⟨not_lt.1 hlength, hpaths⟩⟩
    | _ => cases h

theorem paths_of_checkExpand (h : checkExpand settings members = .ok ()) :
    ∃ paths, MayList (members.get? "expand") paths ∧
      ∀ path ∈ paths, Path.length path ≤ settings.maxExpandDepth := by
  unfold checkExpand at h
  split at h
  · next hget => exact ⟨[], hget ▸ .absent, nofun⟩
  · next items hget =>
    obtain ⟨paths, rfl, hpaths⟩ := paths_of_checkPaths h
    exact ⟨paths, hget ▸ .lists paths, hpaths⟩
  · cases h

/-- The filter under a key means the same tree, or as before none, once it was checked. -/
theorem parse_of_canonicalFilter {key : String} (h : canonicalFilter key members = .ok checked) :
    ∃ tree, Filter.parse ((members.get? key).getD .null) = .ok tree ∧
      Filter.parse ((checked.get? key).getD .null) = .ok tree := by
  have hkept := filterKept_of_canonicalFilter h
  generalize members.get? key = before at hkept ⊢
  generalize checked.get? key = after at hkept ⊢
  cases hkept with
  | absent => exact ⟨none, rfl, rfl⟩
  | @canonical _ g read => exact ⟨some g, read, Filter.parse_toJson_of_parse read⟩
  | removed blank => exact ⟨none, blank, rfl⟩

end Input

/-! ## Paths of a permitted length -/

namespace Query
variable {registry : Registry} {m : Model} {field : String} {fault : Fault}

theorem relationship_ne_invalid {hop : String} :
    m.relationship hop ≠ .error (.invalid field fault) := by
  unfold Model.relationship
  split <;> nofun

theorem get_ne_invalid {name : String} : registry.get name ≠ .error (.invalid field fault) := by
  unfold Registry.get
  split <;> nofun

/-- A hop that leads nowhere is an unknown relationship or model, not a fault of a field. -/
theorem checkHops_ne_invalid {hops : List String} :
    checkHops registry m hops ≠ .error (.invalid field fault) := by
  induction hops generalizing m with
  | nil => nofun
  | cons hop hops ih =>
    intro h
    rw [checkHops] at h
    rcases bind_eq_error.1 h with h | ⟨r, -, h⟩
    · exact relationship_ne_invalid h
    · rcases bind_eq_error.1 h with h | ⟨related, -, h⟩
      · exact get_ne_invalid h
      · exact ih h

/-- The only fault of a path of a permitted length is a hop without a name. -/
theorem fault_of_checkExpandPath {σ : Type} {e : Engine σ} {path : String}
    (permitted : Path.length path ≤ e.settings.maxExpandDepth)
    (h : checkExpandPath e m path = .error (.invalid field fault)) :
    fault = .pathMalformed path := by
  unfold checkExpandPath at h
  dsimp only at h
  split at h
  · cases h
    rfl
  · have hpermitted : ¬e.settings.maxExpandDepth < (Path.segments path).length :=
      not_lt.2 permitted
    rw [if_neg hpermitted] at h
    rcases bind_eq_error.1 h with h | ⟨m', -, h⟩
    · exact absurd h get_ne_invalid
    · exact absurd h checkHops_ne_invalid

end Query

/-! ## Requests -/

namespace Input

/-- The members of an input that the check leaves alone are of their types. -/
structure Typed (input : Json) : Prop where
  columns : ∃ columns, MayHold .ofStrings (input.get? "attributes") columns
  joins : ∃ names, MayList (input.get? "joins") names
  view : ∃ view, MayHold .str (input.get? "view") view
  purpose : ∃ purpose, MayHold .str (input.get? "purpose") purpose
  cursor : ∃ cursor,
    MayHold .str (((input.get? "pagination").getD .null).get? "cursor") cursor

end Input

/-- A request says what an input for reading rows says. -/
structure Request.Says (request : Request) (input : Json) : Prop where
  filters : ∃ tree, Filter.parse ((input.get? "filters").getD .null) = .ok tree ∧
    Filter.parse request.filters = .ok tree
  scopes : request.scopes = (input.get? "scopes").filter fun j => !j.isNull
  sorts : SortsSaid (input.get? "sorts") request.sorts
  pagination : PageSaid (input.get? "pagination") request.pagination
  columns : MayHold .ofStrings (input.get? "attributes") request.columns
  expand : MayList (input.get? "expand") request.expand
  joins : MayList (input.get? "joins") request.joins
  view : MayHold .str (input.get? "view") request.view
  purpose : MayHold .str (input.get? "purpose") request.purpose

/-- An input for reading rows that passes the check is read as a request that says the same, and
none of its expand paths has too many hops for a select. -/
theorem Input.request_of_check {settings : Settings} {input y : Json} (typed : Typed input)
    (h : check .readList settings input = .ok y) :
    ∃ request, Request.ofJson y = .ok request ∧ request.Says input ∧
      ∀ path ∈ request.expand, Path.length path ≤ settings.maxExpandDepth ∧
        ∀ {σ : Type} (e : Engine σ), e.settings = settings → ∀ m field fault,
          Query.checkExpandPath e m path = .error (.invalid field fault) →
            fault = .pathMalformed path := by
  obtain ⟨members, hmembers, -⟩ := bind_eq_ok.1 h
  rw [membersOf_eq_ok] at hmembers
  subst hmembers
  obtain ⟨hpagination, sorted, checked, hsorted, hexpand, hchecked, rfl⟩ :=
    check_readList_eq_ok.1 h
  have hrest (key : String) (hsorts : key ≠ "sorts") (hfilters : key ≠ "filters") :
      checked.get? key = members.get? key :=
    (get?_of_canonicalFilter hchecked hfilters).trans (get?_of_canonicalSorts hsorted hsorts)
  have hfilters : sorted.get? "filters" = members.get? "filters" :=
    get?_of_canonicalSorts hsorted (by decide)
  have hpaths : sorted.get? "expand" = members.get? "expand" :=
    get?_of_canonicalSorts hsorted (by decide)
  obtain ⟨tree, hparse, hagain⟩ := parse_of_canonicalFilter hchecked
  rw [hfilters] at hparse
  obtain ⟨keys, hkeys, hsorts⟩ := said_of_canonicalSorts hsorted
  obtain ⟨page, hpage⟩ := said_of_checkPagination hpagination typed.cursor
  obtain ⟨paths, hexpand, hpermitted⟩ := paths_of_checkExpand hexpand
  obtain ⟨columns, hcolumns⟩ := typed.columns
  obtain ⟨names, hnames⟩ := typed.joins
  obtain ⟨view, hview⟩ := typed.view
  obtain ⟨purpose, hpurpose⟩ := typed.purpose
  simp only [Json.get?_obj] at hcolumns hnames hview hpurpose
  rw [hpaths] at hexpand
  let request : Request :=
    { filters := (checked.get? "filters").getD .null
      scopes := (members.get? "scopes").filter fun j => !j.isNull
      sorts := keys, pagination := page, columns, expand := paths, joins := names, view, purpose }
  refine ⟨request, Request.ofJson_obj_eq_ok.2 ⟨?_, ?_, ?_, ?_, ?_, ?_, ?_, ?_, ?_⟩,
    ⟨⟨tree, hparse, hagain⟩, rfl, hkeys, hpage, hcolumns, hexpand, hnames, hview, hpurpose⟩,
    fun path hpath => ⟨hpermitted path hpath, fun e he m field fault hfault => ?_⟩⟩
  · exact Members.defaulted_any checked "filters" .null
  · rw [Members.optional_any, hrest "scopes" (by decide) (by decide)]
  · rwa [Members.defaulted, get?_of_canonicalFilter hchecked (by decide)]
  · rw [← hrest "pagination" (by decide) (by decide)] at hpage
    exact hpage.optional_eq
  · rw [← hrest "attributes" (by decide) (by decide)] at hcolumns
    exact hcolumns.optional_eq _ fun ss => Json.orNull_eq _ (Json.listOf_ofStrings ss) rfl
  · rw [← hrest "expand" (by decide) (by decide)] at hexpand
    exact hexpand.defaulted_eq
  · rw [← hrest "joins" (by decide) (by decide)] at hnames
    exact hnames.defaulted_eq
  · rw [← hrest "view" (by decide) (by decide)] at hview
    exact hview.optional_eq _ fun _ => rfl
  · rw [← hrest "purpose" (by decide) (by decide)] at hpurpose
    exact hpurpose.optional_eq _ fun _ => rfl
  · exact Query.fault_of_checkExpandPath (he ▸ hpermitted path hpath) hfault

namespace Shelf

/-- The second page of the unread books with their authors, the latest first. -/
def unread : Json :=
  .obj [("attributes", .ofStrings ["title"]), ("expand", .ofStrings ["author"]),
    ("filters", .obj [("read", .bool false)]),
    ("pagination", .obj [("page", .int 2), ("per_page", .null)]),
    ("sorts", .arr [.obj [("attribute", .str "year"), ("direction", .str "DESC")]]),
    ("view", .null)]

def unreadFilter : FilterGroup := .leaf "read" .eq (.bool false)

def checkedUnread : Json :=
  .obj [("attributes", .ofStrings ["title"]), ("expand", .ofStrings ["author"]),
    ("filters", unreadFilter.toJson),
    ("pagination", .obj [("page", .int 2), ("per_page", .null)]),
    ("sorts", .arr [.obj [("attribute", .str "year"), ("direction", .str "desc")]]),
    ("view", .null)]

theorem typed_unread : Input.Typed unread where
  columns := ⟨some ["title"], .holds _⟩
  joins := ⟨[], .absent⟩
  view := ⟨none, .null⟩
  purpose := ⟨none, .absent⟩
  cursor := ⟨none, .absent⟩

theorem request_of_unread :
    Input.Typed unread ∧ Input.check .readList {} unread = .ok checkedUnread ∧
      ∃ request, Request.ofJson checkedUnread = .ok request ∧ request.Says unread ∧
        request.sorts = [⟨"year", .desc⟩] ∧
        request.pagination = some { page := some 2 } ∧ request.expand = ["author"] := by
  have hcheck : Input.check .readList {} unread = .ok checkedUnread := by cbv
  obtain ⟨request, hread, hsays, -⟩ := Input.request_of_check typed_unread hcheck
  have hrequest : Request.ofJson checkedUnread = .ok
      { filters := unreadFilter.toJson, sorts := [⟨"year", .desc⟩]
        pagination := some { page := some 2 }, columns := some ["title"]
        expand := ["author"] } := by rfl
  refine ⟨typed_unread, hcheck, request, hread, hsays, ?_⟩
  cases hrequest.symm.trans hread
  exact ⟨rfl, rfl, rfl⟩

end Shelf
end ModelActions
