import ModelActions.Task.Data

/-!
# Built-in tasks
-/
namespace ModelActions.Tasks
variable {σ : Type}

def builtinHandler? : String → Option (Handler σ)
  | "clean_input" => some fun ctx input => Act.ofExcept (Task.clean ctx.model.schema input)
  | "validate" =>
    some fun ctx input => Act.ofExcept (Task.validate ctx.model.schema ctx.action input)
  | "generate_attributes" => some Task.generate
  | "transform_result" => some fun _ input => pure (Task.wrap input)
  | "transform_results" => some fun _ input => Act.ofExcept (Task.summarizeJson input)
  | "handle_not_found" => some fun ctx _ => throw (.notFound ctx.model.name)
  | "database.insert" => some Task.insert
  | "database.read" => some Task.read
  | "database.select" => some (Task.select false)
  | "database.paginate" => some (Task.select true)
  | "database.update" => some Task.update
  | "database.soft_delete" => some (Task.delete true)
  | "database.hard_delete" => some (Task.delete false)
  | _ => none

def builtin : Tasks σ := ⟨builtinHandler?⟩

end ModelActions.Tasks
