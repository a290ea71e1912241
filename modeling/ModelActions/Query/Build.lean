import ModelActions.Query.Expansion
import ModelActions.Query.Request
import ModelActions.Scope

/-!
# From requests to selects

A request becomes a select: filters and scopes are joined, pushed down and restricted to live rows,
expand paths are checked, and the columns that expansion needs are kept in the projection.
-/
namespace ModelActions.Query
variable {σ : Type}

def checkHops (registry : Registry) : Model → List String → Except Error Unit
  | _, [] => .ok ()
  | m, hop :: hops => do
    let r ← m.relationship hop
    checkHops registry (← registry.get r.related) hops

/-- An expand path has hops that exist, and not too many. -/
def checkExpandPath (e : Engine σ) (m : Model) (path : String) : Except Error Unit := do
  let hops := Path.segments path
  let most := e.settings.maxExpandDepth
  if hops.any String.isEmpty then .error (.invalid "expand" (.pathMalformed path))
  if most < hops.length then .error (.invalid "expand" (.pathTooLong path hops.length most))
  checkHops e.registry (← e.model m.name) hops

def joinOf (e : Engine σ) (m : Model) (name : String) : Except Error Join := do
  let r ← m.relationship name
  let related ← e.model r.related
  return r.join m.table related.table

/-- Adds to some columns those by which the first hops of expand paths are matched. -/
def keepExpandKeys (m : Model) (columns expand : List String) : List String :=
  expand.foldl (fun columns path =>
    match m.relationships.get? (Path.head path) with
    | some r => if r.source ∈ columns then columns else columns ++ [r.source]
    | none => columns) columns

def scopesOf (e : Engine σ) (m : Model) (request : Request) : Except Error (Option FilterGroup) :=
  match request.scopes with
  | none => .ok none
  | some reference => do
    let view ← match request.view with
      | some name => (m.view name).map some
      | none => .ok none
    return some (← Scope.resolve e.registry m view reference)

def build (e : Engine σ) (m : Model) (request : Request) : Act σ Select := do
  let written ← Act.ofExcept (Filter.parse request.filters)
  let named ← Act.ofExcept (scopesOf e m request)
  let filters ← Pushdown.resolve e m (FilterGroup.conjoin written named)
  Act.ofExcept (request.expand.forM (checkExpandPath e m))
  let joins ← Act.ofExcept (request.joins.mapM (joinOf e m))
  return {
    table := m.table
    model := m.name
    purpose := request.purpose
    filters
    sorts := request.sorts
    pagination := request.pagination.map (·.complete e.settings.defaultPerPage)
    columns := request.columns.map (keepExpandKeys m · request.expand)
    expand := request.expand
    joins
    scopes := request.scopes }

def select (e : Engine σ) (model : String) (request : Request) : Act σ Selection := do
  let m ← Act.ofExcept (e.model model)
  let op ← build e m request
  Expansion.execute e m op

end ModelActions.Query
