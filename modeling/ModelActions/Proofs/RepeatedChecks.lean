import ModelActions.Proofs.ActionSteps
import ModelActions.Proofs.PagedInputs
import ModelActions.Proofs.SeparateHops

/-!
# Checks made again

The check of an input brings its filter and its sort directions into canonical form and leaves the
rest as it is. Its result passes the same check without a change. A filter that an action has to be
given is still there afterwards, and the task that needs it reads the tree that the caller wrote.
-/
namespace ModelActions

namespace Action

/-- The member of an input that holds a filter. -/
def filterKey? : Action → Option String
  | update | delete => some "conditions"
  | readOne | readList => some "filters"
  | create | custom _ => none

/-- The filter without which an input is refused. -/
def requiredFilter? : Action → Option String
  | update | delete => some "conditions"
  | readOne => some "filters"
  | create | readList | custom _ => none

/-- The members of an input that are brought into canonical form. -/
def rewritten : Action → List String
  | update | delete => ["conditions"]
  | readOne => ["filters"]
  | readList => ["filters", "sorts"]
  | create | custom _ => []

end Action

namespace Input

/-- What becomes of a member that holds a filter. It is written in canonical form, or removed if it
means that there is no filter. -/
inductive FilterKept : Option Json → Option Json → Prop
  | absent : FilterKept none none
  | canonical {written : Json} {g : FilterGroup} (read : Filter.parse written = .ok (some g)) :
    FilterKept (some written) (some g.toJson)
  | removed {written : Json} (blank : Filter.parse written = .ok none) :
    FilterKept (some written) none

/-- A sort key that is as it was, up to the letter case of its direction. -/
structure SortKept (sort sort' : Json) : Prop where
  rest : sort'.without ["direction"] = sort.without ["direction"]
  direction : ∃ direction, sort.get? "direction" = some (.str direction) ∧
    sort'.get? "direction" = some (.str (direction.map Char.toLower))

inductive SortsKept : Option Json → Option Json → Prop
  | absent : SortsKept none none
  | lowered {sorts sorts' : List Json} (each : List.Forall₂ SortKept sorts sorts') :
    SortsKept (some (.arr sorts)) (some (.arr sorts'))

/-- What the check of an action makes of its input. -/
structure Kept (action : Action) (input checked : Json) : Prop where
  rest : checked.without action.rewritten = input.without action.rewritten
  filter : ∀ key, action.filterKey? = some key → FilterKept (input.get? key) (checked.get? key)
  sorts : action = .readList → SortsKept (input.get? "sorts") (checked.get? "sorts")

variable {settings : Settings} {action : Action} {members checked : Members Json} {key : String}

/-! ### Filters -/

theorem canonicalFilter_canonicalFilter (h : canonicalFilter key members = .ok checked) :
    canonicalFilter key checked = .ok checked := by
  obtain ⟨-, rfl⟩ | ⟨written, g, -, hread, rfl⟩ | ⟨written, -, -, rfl⟩ := canonicalFilter_cases h
  · exact h
  · have hagain := Filter.parse_toJson_of_parse hread
    rw [canonicalFilter, Members.get?_insert_self]
    dsimp only
    rw [hagain]
    exact congrArg Except.ok (Members.insert_insert members key g.toJson g.toJson)
  · rw [canonicalFilter, Members.get?_erase, if_pos rfl]

theorem filterKept_of_canonicalFilter (h : canonicalFilter key members = .ok checked) :
    FilterKept (members.get? key) (checked.get? key) := by
  obtain ⟨hget, rfl⟩ | ⟨written, g, hget, hread, rfl⟩ | ⟨written, hget, hnone, rfl⟩ :=
    canonicalFilter_cases h
  · rw [hget]
    exact .absent
  · rw [hget, Members.get?_insert_self]
    exact .canonical hread
  · rw [hget, Members.get?_erase, if_pos rfl]
    exact .removed hnone

theorem without_of_canonicalFilter {names : List String} (hkey : key ∈ names)
    (h : canonicalFilter key members = .ok checked) :
    (Json.obj checked).without names = (Json.obj members).without names := by
  obtain ⟨-, rfl⟩ | ⟨written, g, -, -, rfl⟩ | ⟨written, -, -, rfl⟩ := canonicalFilter_cases h
  · rfl
  · exact Json.without_insert hkey members g.toJson
  · exact congrArg Json.obj (Members.filter_erase members hkey)

/-! ### Sorts -/

theorem canonicalSort_eq_ok {place : String} {sort sort' : Json} :
    canonicalSort place sort = .ok sort' ↔
      ∃ (members : Members Json) (column direction : String) (d : SortDirection),
        sort = .obj members ∧ members.get? "attribute" = some (.str column) ∧ column ≠ "" ∧
          members.get? "direction" = some (.str direction) ∧
          SortDirection.ofAnyCase? direction = some d ∧
          sort' = .obj (members.insert "direction" (.str d.name)) := by
  constructor
  · intro h
    unfold canonicalSort at h
    split at h
    · next members =>
      split at h
      · cases h
      · cases h
      · next column hne hcolumn =>
        split at h
        · next d hd =>
          cases h
          obtain ⟨direction, hdirection, hd⟩ := Option.bind_eq_some_iff.1 hd
          obtain ⟨j, hget, hj⟩ := Option.bind_eq_some_iff.1 hdirection
          obtain ⟨j', hget', hj'⟩ := Option.bind_eq_some_iff.1 hcolumn
          rw [Json.string?_eq_some.1 hj] at hget
          rw [Json.string?_eq_some.1 hj'] at hget'
          exact ⟨members, column, direction, d, rfl, hget', hne, hget, hd, rfl⟩
        · cases h
    · cases h
  · rintro ⟨members, column, direction, d, rfl, hcolumn, hne, hdirection, hd, rfl⟩
    simp [canonicalSort, hcolumn, hdirection, hd, Json.string?]

theorem canonicalSort_canonicalSort {place : String} {sort sort' : Json}
    (h : canonicalSort place sort = .ok sort') (place' : String) :
    canonicalSort place' sort' = .ok sort' := by
  obtain ⟨members, column, direction, d, rfl, hcolumn, hne, hdirection, hd, rfl⟩ :=
    canonicalSort_eq_ok.1 h
  have hagain : SortDirection.ofAnyCase? d.name = some d := by cases d <;> decide +kernel
  have hcolumn' : (members.insert "direction" (.str d.name)).get? "attribute" =
      some (.str column) := (Members.get?_insert_of_ne members _ (by decide)).trans hcolumn
  have hdirection' := Members.get?_insert_self members "direction" (.str d.name)
  refine canonicalSort_eq_ok.2 ⟨_, column, d.name, d, rfl, hcolumn', hne, hdirection', hagain, ?_⟩
  rw [Members.insert_insert]

theorem sortKept_of_canonicalSort {place : String} {sort sort' : Json}
    (h : canonicalSort place sort = .ok sort') : SortKept sort sort' := by
  obtain ⟨members, column, direction, d, rfl, -, -, hdirection, hd, rfl⟩ := canonicalSort_eq_ok.1 h
  have hname : d.name = direction.map Char.toLower := SortDirection.name_of_ofName? hd
  refine ⟨Json.without_insert (by simp) members (.str d.name), direction, hdirection, ?_⟩
  rw [← hname]
  exact Members.get?_insert_self members "direction" (.str d.name)

theorem canonicalSortList_canonicalSortList {i : Nat} {sorts sorts' : List Json}
    (h : canonicalSortList i sorts = .ok sorts') (i' : Nat) :
    canonicalSortList i' sorts' = .ok sorts' := by
  induction sorts generalizing i i' sorts' with
  | nil =>
    cases h
    rfl
  | cons sort sorts ih =>
    rw [canonicalSortList] at h
    obtain ⟨first, hfirst, h⟩ := bind_eq_ok.1 h
    obtain ⟨later, hlater, h⟩ := bind_eq_ok.1 h
    cases h
    rw [canonicalSortList, canonicalSort_canonicalSort hfirst, ih hlater (i' + 1)]
    rfl

theorem sortsKept_of_canonicalSortList {i : Nat} {sorts sorts' : List Json}
    (h : canonicalSortList i sorts = .ok sorts') : List.Forall₂ SortKept sorts sorts' := by
  induction sorts generalizing i sorts' with
  | nil =>
    cases h
    exact .nil
  | cons sort sorts ih =>
    rw [canonicalSortList] at h
    obtain ⟨first, hfirst, h⟩ := bind_eq_ok.1 h
    obtain ⟨later, hlater, h⟩ := bind_eq_ok.1 h
    cases h
    exact .cons (sortKept_of_canonicalSort hfirst) (ih hlater)

theorem canonicalSorts_canonicalSorts (h : canonicalSorts members = .ok checked) :
    canonicalSorts checked = .ok checked := by
  obtain ⟨-, rfl⟩ | ⟨sorts, sorts', -, hsorts, rfl⟩ := canonicalSorts_cases h
  · exact h
  · rw [canonicalSorts, Members.get?_insert_self]
    dsimp only
    rw [canonicalSortList_canonicalSortList hsorts 0]
    exact congrArg Except.ok (Members.insert_insert members "sorts" _ _)

theorem sortsKept_of_canonicalSorts (h : canonicalSorts members = .ok checked) :
    SortsKept (members.get? "sorts") (checked.get? "sorts") := by
  obtain ⟨hget, rfl⟩ | ⟨sorts, sorts', hget, hsorts, rfl⟩ := canonicalSorts_cases h
  · rw [hget]
    exact .absent
  · rw [hget, Members.get?_insert_self]
    exact .lowered (sortsKept_of_canonicalSortList hsorts)

theorem without_of_canonicalSorts {names : List String} (hsorts : "sorts" ∈ names)
    (h : canonicalSorts members = .ok checked) :
    (Json.obj checked).without names = (Json.obj members).without names := by
  obtain ⟨-, rfl⟩ | ⟨sorts, sorts', -, -, rfl⟩ := canonicalSorts_cases h
  · rfl
  · exact Json.without_insert hsorts members (.arr sorts')

theorem canonicalSorts_erase (h : key < "sorts") :
    canonicalSorts (members.erase key) = (canonicalSorts members).map (·.erase key) := by
  have hne : "sorts" ≠ key := fun he => String.lt_irrefl _ (he ▸ h)
  unfold canonicalSorts
  rw [Members.get?_erase, if_neg hne]
  split
  · rfl
  · next sorts _ =>
    cases canonicalSortList 0 sorts with
    | error e => rfl
    | ok sorted =>
      exact congrArg Except.ok (Members.erase_insert_comm members h (.arr sorted)).symm
  · rfl

/-- Sorts in canonical form stay so when the filter is brought into canonical form. -/
theorem canonicalSorts_of_canonicalFilter (hsorts : canonicalSorts members = .ok members)
    (hkey : key < "sorts") (h : canonicalFilter key members = .ok checked) :
    canonicalSorts checked = .ok checked := by
  have hne : key ≠ "sorts" := fun he => String.lt_irrefl _ (he ▸ hkey)
  obtain ⟨-, rfl⟩ | ⟨written, g, -, -, rfl⟩ | ⟨written, -, -, rfl⟩ := canonicalFilter_cases h
  · exact hsorts
  · rw [canonicalSorts_insert hne, hsorts]
    rfl
  · rw [canonicalSorts_erase hkey, hsorts]
    rfl

/-! ### Inputs -/

/-- A filter that was required is there in canonical form, so that the requirement is met again. -/
theorem require_of_canonicalFilter (required : require action members key = .ok ())
    (h : canonicalFilter key members = .ok checked) : require action checked key = .ok () := by
  obtain ⟨g, -, rfl⟩ := canonicalFilter_eq_ok required h
  rw [require, Members.get?_insert_self]
  rfl

/-- Only objects are accepted where a filter may be given. -/
theorem exists_members_of_check {input y : Json} {key : String}
    (hkey : action.filterKey? = some key) (h : check action settings input = .ok y) :
    ∃ members : Members Json, input = .obj members := by
  cases action with
  | create => cases hkey
  | custom name => cases hkey
  | update | delete | readOne | readList =>
    obtain ⟨members, hmembers, -⟩ := bind_eq_ok.1 h
    exact ⟨members, membersOf_eq_ok.1 hmembers⟩

theorem check_check {input y : Json} (h : check action settings input = .ok y) :
    check action settings y = .ok y := by
  cases action with
  | create =>
    obtain ⟨_, hrows, hy⟩ := bind_eq_ok.1 h
    cases hy
    exact h
  | custom name =>
    cases h
    rfl
  | update =>
    obtain ⟨members, rfl⟩ := exists_members_of_check rfl h
    obtain ⟨hrequire, ⟨e, data, hdata⟩, checked, hchecked, rfl⟩ := check_update_eq_ok.1 h
    have hdata' := (get?_of_canonicalFilter hchecked (by decide)).trans hdata
    exact check_update_eq_ok.2 ⟨require_of_canonicalFilter hrequire hchecked, ⟨e, data, hdata'⟩,
      checked, canonicalFilter_canonicalFilter hchecked, rfl⟩
  | delete =>
    obtain ⟨members, rfl⟩ := exists_members_of_check rfl h
    obtain ⟨hrequire, checked, hchecked, rfl⟩ := check_delete_eq_ok.1 h
    exact check_delete_eq_ok.2 ⟨require_of_canonicalFilter hrequire hchecked, checked,
      canonicalFilter_canonicalFilter hchecked, rfl⟩
  | readOne =>
    obtain ⟨members, rfl⟩ := exists_members_of_check rfl h
    obtain ⟨hrequire, checked, hchecked, hexpand, rfl⟩ := check_readOne_eq_ok.1 h
    exact check_readOne_eq_ok.2 ⟨require_of_canonicalFilter hrequire hchecked, checked,
      canonicalFilter_canonicalFilter hchecked, hexpand, rfl⟩
  | readList =>
    obtain ⟨members, rfl⟩ := exists_members_of_check rfl h
    obtain ⟨hpagination, sorted, checked, hsorted, hexpand, hchecked, rfl⟩ :=
      check_readList_eq_ok.1 h
    have hpage : checked.get? "pagination" = members.get? "pagination" := by
      rw [get?_of_canonicalFilter hchecked (by decide), get?_of_canonicalSorts hsorted (by decide)]
    have hpaths : checked.get? "expand" = sorted.get? "expand" :=
      get?_of_canonicalFilter hchecked (by decide)
    have hsorts : canonicalSorts checked = .ok checked :=
      canonicalSorts_of_canonicalFilter (canonicalSorts_canonicalSorts hsorted) (by decide) hchecked
    refine check_readList_eq_ok.2 ⟨?_, checked, checked, hsorts, ?_,
      canonicalFilter_canonicalFilter hchecked, rfl⟩
    · rwa [checkPagination, hpage]
    · rwa [checkExpand, hpaths]

/-- An action whose input is changed at its filter only. -/
theorem kept_of_canonicalFilter (hkey : action.filterKey? = some key)
    (hrewritten : key ∈ action.rewritten) (hlist : action ≠ .readList)
    (h : canonicalFilter key members = .ok checked) :
    Kept action (.obj members) (.obj checked) where
  rest := without_of_canonicalFilter hrewritten h
  filter key' hkey' := by
    cases hkey.symm.trans hkey'
    exact filterKept_of_canonicalFilter h
  sorts he := absurd he hlist

theorem kept_of_check {input y : Json} (h : check action settings input = .ok y) :
    Kept action input y := by
  cases action with
  | create =>
    obtain ⟨_, -, hy⟩ := bind_eq_ok.1 h
    cases hy
    exact { rest := rfl, filter := nofun, sorts := nofun }
  | custom name =>
    cases h
    exact { rest := rfl, filter := nofun, sorts := nofun }
  | update =>
    obtain ⟨members, rfl⟩ := exists_members_of_check rfl h
    obtain ⟨-, -, checked, hchecked, rfl⟩ := check_update_eq_ok.1 h
    exact kept_of_canonicalFilter rfl (by simp [Action.rewritten]) nofun hchecked
  | delete =>
    obtain ⟨members, rfl⟩ := exists_members_of_check rfl h
    obtain ⟨-, checked, hchecked, rfl⟩ := check_delete_eq_ok.1 h
    exact kept_of_canonicalFilter rfl (by simp [Action.rewritten]) nofun hchecked
  | readOne =>
    obtain ⟨members, rfl⟩ := exists_members_of_check rfl h
    obtain ⟨-, checked, hchecked, -, rfl⟩ := check_readOne_eq_ok.1 h
    exact kept_of_canonicalFilter rfl (by simp [Action.rewritten]) nofun hchecked
  | readList =>
    obtain ⟨members, rfl⟩ := exists_members_of_check rfl h
    obtain ⟨-, sorted, checked, hsorted, -, hchecked, rfl⟩ := check_readList_eq_ok.1 h
    refine ⟨?_, ?_, fun _ => ?_⟩
    · rw [without_of_canonicalFilter (by simp [Action.rewritten]) hchecked,
        without_of_canonicalSorts (by simp [Action.rewritten]) hsorted]
    · rintro _ ⟨⟩
      have hkept := filterKept_of_canonicalFilter hchecked
      rwa [get?_of_canonicalSorts hsorted (by decide)] at hkept
    · have hkept := sortsKept_of_canonicalSorts hsorted
      rwa [← get?_of_canonicalFilter hchecked (by decide)] at hkept

theorem required_of_check {input y : Json} (hkey : action.requiredFilter? = some key)
    (h : check action settings input = .ok y) :
    ∃ members checked : Members Json, input = .obj members ∧
      require action members key = .ok () ∧ canonicalFilter key members = .ok checked ∧
      y = .obj checked := by
  cases action with
  | create | readList | custom name => cases hkey
  | update =>
    cases hkey
    obtain ⟨members, rfl⟩ := exists_members_of_check rfl h
    obtain ⟨hrequire, -, checked, hchecked, rfl⟩ := check_update_eq_ok.1 h
    exact ⟨members, checked, rfl, hrequire, hchecked, rfl⟩
  | delete =>
    cases hkey
    obtain ⟨members, rfl⟩ := exists_members_of_check rfl h
    obtain ⟨hrequire, checked, hchecked, rfl⟩ := check_delete_eq_ok.1 h
    exact ⟨members, checked, rfl, hrequire, hchecked, rfl⟩
  | readOne =>
    cases hkey
    obtain ⟨members, rfl⟩ := exists_members_of_check rfl h
    obtain ⟨hrequire, checked, hchecked, -, rfl⟩ := check_readOne_eq_ok.1 h
    exact ⟨members, checked, rfl, hrequire, hchecked, rfl⟩

/-- The check of an input changes no more than its filter and the letter case of its sort
directions, and a second check changes nothing. A filter that the action has to be given is read
from the result as the tree that it was before, and a task that asks for it finds it. -/
theorem checked_again {input y : Json} (h : check action settings input = .ok y) :
    check action settings y = .ok y ∧ Kept action input y ∧
      ∀ key, action.requiredFilter? = some key →
        ∃ g, Filter.parse ((input.get? key).getD .null) = .ok (some g) ∧
          Filter.parse ((y.get? key).getD .null) = .ok (some g) ∧
          ∀ {σ : Type} (ctx : Context σ), Task.filterUnder ctx key y = .ok g := by
  refine ⟨check_check h, kept_of_check h, fun key hkey => ?_⟩
  obtain ⟨members, checked, rfl, hrequire, hchecked, rfl⟩ := required_of_check hkey h
  obtain ⟨g, hread, rfl⟩ := canonicalFilter_eq_ok hrequire hchecked
  have hagain : Filter.parse (((Json.obj (members.insert key g.toJson)).get? key).getD .null) =
      .ok (some g) := by
    rw [Json.get?, Members.get?_insert_self]
    exact Filter.parse_toJson_of_parse hread
  exact ⟨g, hread, hagain, fun ctx => Task.filterUnder_eq_ok.2 hagain⟩

end Input

namespace Blog

/-- The latest posts, with a filter that means none. -/
def newestFirst : Json :=
  .obj [("filters", .obj []), ("sorts", .arr [.obj [("attribute", .str "id"),
    ("direction", .str "DESC"), ("nulls", .str "LAST")]])]

def newestFirstChecked : Json :=
  .obj [("sorts", .arr [.obj [("attribute", .str "id"), ("direction", .str "desc"),
    ("nulls", .str "LAST")]])]

/-- The deletion of what Ada wrote. -/
def dropByAda : Json := .obj [("conditions", .obj [("author", .str "Ada")])]

def writtenByAdaTree : FilterGroup := .and [.condition ⟨"author", .eq, .str "Ada"⟩]

def dropByAdaChecked : Json := .obj [("conditions", writtenByAdaTree.toJson)]

theorem newestFirst_again :
    (Input.check .readList {} newestFirst = .ok newestFirstChecked ∧
      Input.check .readList {} newestFirstChecked = .ok newestFirstChecked ∧
      Input.Kept .readList newestFirst newestFirstChecked) ∧
    (Input.check .delete {} dropByAda = .ok dropByAdaChecked ∧
      Input.check .delete {} dropByAdaChecked = .ok dropByAdaChecked ∧
      Input.Kept .delete dropByAda dropByAdaChecked) ∧
    Action.requiredFilter? .delete = some "conditions" ∧
      ∀ {σ : Type} (ctx : Context σ),
        Task.filterUnder ctx "conditions" dropByAdaChecked = .ok writtenByAdaTree := by
  have hlist : Input.check .readList {} newestFirst = .ok newestFirstChecked := by cbv
  have hdelete : Input.check .delete {} dropByAda = .ok dropByAdaChecked := by rfl
  obtain ⟨hlistAgain, hlistKept, -⟩ := Input.checked_again hlist
  obtain ⟨hagain, hkept, hrequired⟩ := Input.checked_again hdelete
  obtain ⟨g, hread, -, htask⟩ := hrequired "conditions" rfl
  cases hread
  exact ⟨⟨hlist, hlistAgain, hlistKept⟩, ⟨hdelete, hagain, hkept⟩, rfl, fun ctx => htask ctx⟩

end Blog
end ModelActions
