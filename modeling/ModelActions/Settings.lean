import ModelActions.Json.Record

/-!
# Settings

Limits and switches of the engine.
-/
namespace ModelActions

structure Settings where
  /-- Rows of a page whose request names no number. -/
  defaultPerPage : Nat := 25
  /-- The most rows of a page. -/
  maxPerPage : Nat := 500
  /-- The most hops of an expand path. -/
  maxExpandDepth : Nat := 5
  /-- Check every graph before it can run. -/
  eagerGraphValidation : Bool := true
  /-- Keep the input and output of every state in the history of a run. -/
  debugTrace : Bool := false
  deriving DecidableEq, Repr

namespace Settings

def fields : List String :=
  ["default_per_page", "max_per_page", "max_expand_depth", "eager_graph_validation", "debug_trace"]

def toJson (s : Settings) : Json :=
  .obj [("debug_trace", .bool s.debugTrace), ("default_per_page", .ofNat s.defaultPerPage),
    ("eager_graph_validation", .bool s.eagerGraphValidation),
    ("max_expand_depth", .ofNat s.maxExpandDepth), ("max_per_page", .ofNat s.maxPerPage)]

/-- Settings where absent fields have their defaults. -/
def ofJson? (j : Json) : Option Settings := do
  let r ← j.record? fields
  let d : Settings := {}
  return {
    defaultPerPage := ← r.defaulted "default_per_page" Json.count? d.defaultPerPage
    maxPerPage := ← r.defaulted "max_per_page" Json.count? d.maxPerPage
    maxExpandDepth := ← r.defaulted "max_expand_depth" Json.count? d.maxExpandDepth
    eagerGraphValidation :=
      ← r.defaulted "eager_graph_validation" Json.bool? d.eagerGraphValidation
    debugTrace := ← r.defaulted "debug_trace" Json.bool? d.debugTrace }

theorem ofJson?_toJson (s : Settings) : ofJson? s.toJson = some s := rfl

end Settings
end ModelActions
