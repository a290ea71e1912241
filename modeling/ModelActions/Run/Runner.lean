import ModelActions.Input
import ModelActions.Run.Walk
import ModelActions.Task.Builtin

/-!
# Running actions

An engine with tasks, which runs actions by name. With eager validation no graph runs that has not
been checked against the tasks.
-/
namespace ModelActions

structure Runner (σ : Type) extends Engine σ where
  tasks : Tasks σ
  /-- How many states more than its graph has a run may visit before it is given up. -/
  patience : Nat

namespace Runner
variable {σ : Type}

/-- All graphs of a registry: the built-in ones and those of its models. -/
def graphsOf (registry : Registry) : List Graph :=
  Graph.builtin ++ registry.models.flatMap fun m => m.2.actions.map (·.2)

/-- A runner; with eager validation all graphs have to pass. -/
def make (engine : Engine σ) (tasks : Tasks σ) (patience : Nat) : Except Error (Runner σ) := do
  if engine.settings.eagerGraphValidation then
    (graphsOf engine.registry).forM fun g => g.check tasks.has
  return { engine with tasks, patience }

def context (r : Runner σ) (m : Model) (action : String) : Context σ :=
  { r.toEngine with model := m, action }

def drive (r : Runner σ) (model action : String) (g : Graph) (input : Json) : Act σ Packet := do
  let m ← Act.ofExcept (r.toEngine.model model)
  let ctx := r.context m action
  let p : Packet := { input, context := ctx.document }
  ExceptT.mk do
    let (p', result) ← Walk.run g r.tasks ctx r.settings.debugTrace r.patience p
    return result.map fun _ => p'

def run (r : Runner σ) (model action : String) (input : Json) : Act σ Packet := do
  let m ← Act.ofExcept (r.toEngine.model model)
  let a := Action.ofName action
  let input ← Act.ofExcept (Input.check a r.settings input)
  let g ← Act.ofExcept (a.graph m)
  r.drive model a.name g input

/-- Runs an action on a model and answers with its output. -/
def execute (r : Runner σ) (model action : String) (input : Json) : Act σ Json := do
  return (← r.run model action input).output

/-- Runs any graph on a model, as the action of the graph's comment. -/
def runGraph (r : Runner σ) (model : String) (g : Graph) (input : Json) : Act σ Packet := do
  if r.settings.eagerGraphValidation then
    Act.ofExcept (g.check r.tasks.has)
  r.drive model (g.comment.getD "graph") g input

end Runner
end ModelActions
