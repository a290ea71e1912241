import ModelActions.Action
import ModelActions.Filter.Grammar
import ModelActions.Filter.Wire
import ModelActions.Settings

/-!
# Checking inputs

What the input of a built-in action has to look like before its graph starts. Checked inputs have
their filters in canonical form and their sort directions in lower case.
-/
namespace ModelActions.Input

/-- Absent, null, or an empty object or list. -/
def isBlank : Option Json → Bool
  | none | some .null => true
  | some (.obj members) => members.isEmpty
  | some (.arr items) => items.isEmpty
  | some _ => false

def require (action : Action) (input : Members Json) (key : String) : Except Error Unit :=
  if isBlank (input.get? key) then .error (.invalid key (.required action.name key)) else .ok ()

/-- The place of a filter's fault within the whole input. -/
def placeUnder (key field : String) : String :=
  if field ≠ key ∧ field ≠ "filters" then key ++ "." ++ field else key

/-- Brings the filter under a key into canonical form; one that means no filter is removed. -/
def canonicalFilter (key : String) (input : Members Json) : Except Error (Members Json) :=
  match input.get? key with
  | none => .ok input
  | some written => do
    match ← (Filter.parse written).mapError (Error.mapField (placeUnder key)) with
    | some g => return input.insert key g.toJson
    | none => return input.erase key

/-- Expand paths are strings with a limited number of hops. -/
def checkPaths (settings : Settings) (i : Nat) : List Json → Except Error Unit
  | [] => .ok ()
  | .str path :: paths =>
    if settings.maxExpandDepth < Path.length path then
      .error (.invalid ("expand[" ++ toString i ++ "]") (.tooManyHops settings.maxExpandDepth))
    else checkPaths settings (i + 1) paths
  | _ :: _ => .error (.invalid ("expand[" ++ toString i ++ "]") .stringExpected)

def checkExpand (settings : Settings) (input : Members Json) : Except Error Unit :=
  match input.get? "expand" with
  | none => .ok ()
  | some (.arr paths) => checkPaths settings 0 paths
  | some _ => .error (.invalid "expand" .pathsExpected)

/-- A member of the pagination that is absent, null or a count between one and a limit. -/
def checkCount (pagination : Members Json) (key : String) (limit : Option Nat) :
    Except Error Unit :=
  match pagination.get? key with
  | none | some .null => .ok ()
  | some value =>
    match value.count? with
    | none | some 0 => .error (.invalid ("pagination." ++ key) .notPositive)
    | some n =>
      match limit with
      | some most =>
        if most < n then .error (.invalid ("pagination." ++ key) (.pageTooLarge most)) else .ok ()
      | none => .ok ()

def checkPagination (settings : Settings) (input : Members Json) : Except Error Unit :=
  match input.get? "pagination" with
  | none | some .null => .ok ()
  | some (.obj pagination) => do
    checkCount pagination "page" none
    checkCount pagination "per_page" (some settings.maxPerPage)
  | some _ => .error (.invalid "pagination" .objectExpected)

/-- A sort key with its direction in lower case. -/
def canonicalSort (place : String) : Json → Except Error Json
  | .obj members =>
    match (Members.get? members "attribute").bind Json.string? with
    | none | some "" => .error (.invalid (place ++ ".attribute") .sortWithoutAttribute)
    | some _ =>
      match ((Members.get? members "direction").bind Json.string?).bind
          SortDirection.ofAnyCase? with
      | some d => .ok (.obj (Members.insert members "direction" (.str d.name)))
      | none => .error (.invalid (place ++ ".direction") .sortDirection)
  | _ => .error (.invalid place .objectExpected)

def canonicalSortList (i : Nat) : List Json → Except Error (List Json)
  | [] => .ok []
  | j :: js => do
    let s ← canonicalSort ("sorts[" ++ toString i ++ "]") j
    return s :: (← canonicalSortList (i + 1) js)

def canonicalSorts (input : Members Json) : Except Error (Members Json) :=
  match input.get? "sorts" with
  | none => .ok input
  | some (.arr sorts) => do return input.insert "sorts" (.arr (← canonicalSortList 0 sorts))
  | some _ => .error (.invalid "sorts" .listExpected)

/-- The members of an input that has to be an object. -/
def membersOf (action : Action) : Json → Except Error (Members Json)
  | .obj members => .ok members
  | _ => .error (.invalid "payload" (.payloadNotObject action.name))

/-- Rows to be created: not blank, and none of a list blank. -/
def checkRows (input : Json) : Except Error Unit :=
  if isBlank (some input) then .error (.invalid "payload" .payloadBlank)
  else
    match input with
    | .arr rows =>
      match rows.findIdx? fun r => isBlank (some r) with
      | some i => .error (.invalid ("rows[" ++ toString i ++ "]") .rowBlank)
      | none => .ok ()
    | _ => .ok ()

/-- Checks the input of an action and brings it into canonical form. The inputs of a model's own
actions are not looked at. -/
def check (action : Action) (settings : Settings) (input : Json) : Except Error Json :=
  match action with
  | .create => do
    checkRows input
    return input
  | .update => do
    let members ← membersOf action input
    require action members "conditions"
    match members.get? "data" with
    | some (.obj (_ :: _)) => .ok ()
    | _ => .error (.invalid "data" .dataBlank)
    return .obj (← canonicalFilter "conditions" members)
  | .delete => do
    let members ← membersOf action input
    require action members "conditions"
    return .obj (← canonicalFilter "conditions" members)
  | .readOne => do
    let members ← membersOf action input
    require action members "filters"
    let members ← canonicalFilter "filters" members
    checkExpand settings members
    return .obj members
  | .readList => do
    let members ← membersOf action input
    checkPagination settings members
    let members ← canonicalSorts members
    checkExpand settings members
    return .obj (← canonicalFilter "filters" members)
  | .custom _ => .ok input

end ModelActions.Input
