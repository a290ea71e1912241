import ModelActions.Query.Build

/-!
# Tasks

A task turns the input of a state into its output, in the context of one action on one model. Tasks
are registered under the names of resources.
-/
namespace ModelActions

/-- What a task knows of the action it is part of. -/
structure Context (σ : Type) extends Engine σ where
  model : Model
  action : String

def Context.document {σ : Type} (ctx : Context σ) : Json := ctx.model.document ctx.action

abbrev Handler (σ : Type) := Context σ → Json → Act σ Json

/-- The tasks that are registered, by resource. -/
structure Tasks (σ : Type) where
  handler? : String → Option (Handler σ) := fun _ => none

namespace Tasks
variable {σ : Type}

def has (tasks : Tasks σ) (resource : String) : Bool := (tasks.handler? resource).isSome

def get (tasks : Tasks σ) (resource : String) : Except Error (Handler σ) :=
  match tasks.handler? resource with
  | some h => .ok h
  | none => .error (.unknownTask resource)

def register (tasks : Tasks σ) (resource : String) (handler : Handler σ) : Tasks σ where
  handler? r := if r = resource then some handler else tasks.handler? r

end Tasks
end ModelActions
