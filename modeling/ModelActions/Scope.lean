import ModelActions.Model.Registry

/-!
# Scope references

A reference names a scope of a model, or of a related model by a dotted name, or joins references by
and or or. A bare name that the model lacks is looked up in a view.
-/
namespace ModelActions.Scope

def connective? (members : Members Json) : Option Connective :=
  ((members.get? "op").bind Json.string?).bind Connective.ofName?

/-- The filter of a name given by its segments: all but the last are relationships, and the filter's
attributes are prefixed by them. -/
def named (registry : Registry) (view : Option ScopeTable) :
    Model → List String → Except Error FilterGroup
  | m, [] => .error (.unknownScope m.name "")
  | m, [name] =>
    match (m.scopes.get? name).or (view.bind (·.get? name)) with
    | some g => .ok g
    | none => .error (.unknownScope m.name name)
  | m, hop :: next :: rest => do
    let relationship ← m.relationship hop
    let related ← registry.get relationship.related
    let g ← named registry none related (next :: rest)
    return g.mapAttributes fun path => hop ++ "." ++ path

mutual
def resolve (registry : Registry) (m : Model) (view : Option ScopeTable) :
    Json → Except Error FilterGroup
  | .str name => named registry view m (Path.segments name)
  | .arr items =>
    if items.isEmpty then .error (.invalid "scopes" .scopeListEmpty)
    else do return .and (← resolveAll registry m view items)
  | .obj members =>
    match connective? members with
    | none => .error (.invalid "scopes.op" .scopeConnective)
    | some op => do return ⟨op, ← resolveIn registry m view members⟩
  | _ => .error (.invalid "scopes" .scopeShape)

def resolveIn (registry : Registry) (m : Model) (view : Option ScopeTable) :
    List (String × Json) → Except Error (List Filter)
  | [] => .error (.invalid "scopes.scopes" .scopeGroupEmpty)
  | (key, value) :: members =>
    if key = "scopes" then resolveList registry m view value
    else resolveIn registry m view members

/-- The filters of a list of references, which must not be empty. -/
def resolveList (registry : Registry) (m : Model) (view : Option ScopeTable) :
    Json → Except Error (List Filter)
  | .arr items =>
    if items.isEmpty then .error (.invalid "scopes.scopes" .scopeGroupEmpty)
    else resolveAll registry m view items
  | _ => .error (.invalid "scopes.scopes" .scopeGroupEmpty)

def resolveAll (registry : Registry) (m : Model) (view : Option ScopeTable) :
    List Json → Except Error (List Filter)
  | [] => .ok []
  | j :: js => do
    let g ← resolve registry m view j
    let gs ← resolveAll registry m view js
    return g.toFilter :: gs
end

end ModelActions.Scope
