import ModelActions.Filter.Grammar
import ModelActions.Model.Spec

/-!
# Registry of models

All models of an engine by name. Relationships lead to models of the same registry, and every scope
is a checked filter.
-/
namespace ModelActions

structure Registry where
  models : Members Model := []

namespace Registry

def get (r : Registry) (name : String) : Except Error Model :=
  match r.models.get? name with
  | some m => .ok m
  | none => .error (.unknownModel name)

def readScope (model name : String) (written : Json) : Except Error FilterGroup := do
  let expanded ← Filter.expandShorthand written
  (Filter.check expanded).mapError
    (Error.mapField fun field => model ++ ".scopes." ++ name ++ "." ++ field)

/-- Reads a table of scopes in the order of their names. -/
def readScopes (model : String) (written : Members Json) : Except Error ScopeTable :=
  written.mapM fun e => do return (e.1, ← readScope model e.1 e.2)

/-- Completes the relationships of a model, whose related models have to be configured. -/
def readRelationships (configs : Members ModelConfig) (spec : ModelSpec) (config : ModelConfig) :
    Except Error (Members Relationship) :=
  spec.relationships.mapM fun e =>
    match configs.get? e.2.model with
    | some related =>
      .ok (e.1, .ofSpec e.1 spec.name config.primaryKey related.primaryKey e.2)
    | none => .error (.unknownModel e.2.model)

/-- Builds a model: first its relationships, then its scopes, then the scopes of its views. -/
def readModel (configs : Members ModelConfig) (spec : ModelSpec) : Except Error Model := do
  let config := (configs.get? spec.name).getD (spec.config.complete spec.name)
  let relationships ← readRelationships configs spec config
  let scopes ← readScopes spec.name spec.scopes
  let views ← spec.views.mapM fun e => do return (e.1, ← readScopes spec.name e.2)
  return {
    name := spec.name, schema := spec.schema, config, relationships, scopes, views
    actions := spec.actions }

/-- The configurations of all models; of two of one name the last counts. -/
def configs (specs : List ModelSpec) : Members ModelConfig :=
  Members.ofList (specs.map fun s => (s.name, s.config.complete s.name))

/-- Builds all models in order; of two of one name the last stays. -/
def ofSpecs (specs : List ModelSpec) : Except Error Registry := do
  let models ← specs.mapM (readModel (configs specs))
  return ⟨Members.ofList (models.map fun m => (m.name, m))⟩

def ofJson (j : Json) : Except Error Registry :=
  match Json.listOf ModelSpec.ofJson? j with
  | some specs => ofSpecs specs
  | none => .error (.invalid "models" .malformed)

end Registry
end ModelActions
