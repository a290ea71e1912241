import ModelActions.Host
import ModelActions.Model.Registry
import ModelActions.Settings

/-!
# Engines

What queries need to know: the models, the settings and the host that answers operations.
Related rows are expanded along the paths that the host echoes, so one that echoes ever longer paths
keeps a query going until the engine gives it up.
-/
namespace ModelActions

structure Engine (σ : Type) where
  registry : Registry
  settings : Settings
  host : Host σ
  /-- How many hops further than the paths it was sent a host's echo is followed. -/
  echoPatience : Nat := 0

def Engine.model {σ : Type} (e : Engine σ) (name : String) : Except Error Model :=
  e.registry.get name

end ModelActions
