import ModelActions.Proofs.Calls
import ModelActions.Proofs.Visible

/-!
# Recorded runs

What an operator is sent during a call, whatever it answers: a host that lists the operations it
receives is a host like any other. Each select, update and delete names a model of the registry with
the model's own table, and leaves out the rows that are marked as deleted if the model keeps such.
-/
namespace ModelActions
variable {σ : Type}

/-- What a host was sent, and what it answered. -/
abbrev Recording := List (Operation × Except Failure Answer)

/-- Whatever a computation sends to a host is of the kinds that the host's operations are of. -/
theorem Host.recorded_keeps (host : Host σ) (P : Operation → Prop) :
    host.recorded.Keeps P fun s => ∀ entry ∈ s.2, P entry.1 where
  execute {op s} sent h := by
    intro entry hentry
    rcases List.mem_append.1 hentry with hentry | hentry
    · exact h entry hentry
    · obtain rfl := List.mem_singleton.1 hentry
      exact sent
  now h := h
  freshKey h := h

theorem Act.Sends.recorded {host : Host σ} {P : Operation → Prop} {α : Type}
    {x : Act (σ × Recording) α} {Q : α → Prop} (h : Sends host.recorded P x Q) (s : σ) :
    ∀ entry ∈ (x.runFrom (s, [])).2.2, P entry.1 :=
  h.keeps (host.recorded_keeps P) (s := (s, [])) fun _ hentry => nomatch hentry

/-- The engine, whose host keeps a record. -/
def Engine.recorded (e : Engine σ) : Engine (σ × Recording) where
  registry := e.registry
  settings := e.settings
  host := e.host.recorded
  echoPatience := e.echoPatience

/-- A runner of the built-in tasks. -/
def Engine.runner (e : Engine σ) (patience : Nat) : Runner σ :=
  { e with tasks := Tasks.builtin, patience }

/-- What the host of an engine is sent during a call, and what it answers. -/
def Engine.recording (e : Engine σ) (patience : Nat) (call : Call) (s : σ) : Recording :=
  (((e.recorded.runner patience).answer call).runFrom (s, [])).2.2

/-- The name and the table are those of one model; with soft deletes there is a filter, and it holds
of no row that is marked as deleted. -/
def Registry.Confines (registry : Registry) (model table : String) (filter : Option FilterGroup) :
    Prop :=
  ∃ m, registry.models.get? model = some m ∧ table = m.table ∧
    (m.config.softDelete = true →
      ∃ g, filter = some g ∧ ∀ row : Json, row.isLive = false → g.holds row = false)

/-- What an operation other than an insert reaches belongs to a model and is not marked as
deleted. -/
def Operation.Confined (registry : Registry) : Operation → Prop
  | .insert _ => True
  | .update op => registry.Confines op.model op.table (some op.conditions)
  | .delete op => registry.Confines op.model op.table (some op.conditions)
  | .select op => registry.Confines op.model op.table op.filters

theorem Registry.confines_guard {specs : List ModelSpec} {registry : Registry}
    (loaded : Registry.ofSpecs specs = .ok registry) {name : String} {m : Model}
    (hm : registry.models.get? name = some m) (f : Option FilterGroup) :
    registry.Confines m.name m.table (m.guard f) := by
  refine ⟨m, Registry.get?_name_of_ofSpecs loaded hm, rfl, fun hsoft => ?_⟩
  cases f with
  | none =>
    refine ⟨liveRows, by rw [Model.guard, if_pos hsoft], fun row hrow => ?_⟩
    rw [holds_liveRows, hrow]
  | some g =>
    refine ⟨m.guardGroup g, rfl, fun row hrow => ?_⟩
    rw [Model.holds_guardGroup, Model.sees, hsoft, hrow]
    simp

/-- A guard confines an operation to its model. -/
theorem Operation.Guarded.confined {specs : List ModelSpec} {registry : Registry}
    (loaded : Registry.ofSpecs specs = .ok registry) {op : Operation}
    (guarded : op.Guarded registry) : op.Confined registry := by
  cases guarded with
  | insert op => trivial
  | select guarded =>
    cases guarded with
    | select registered table named filters =>
      rw [Confined, table, named, filters]
      exact Registry.confines_guard loaded registered _
  | update registered table named conditions =>
    rw [Confined, table, named, conditions]
    exact Registry.confines_guard loaded registered (some _)
  | delete registered table named conditions =>
    rw [Confined, table, named, conditions]
    exact Registry.confines_guard loaded registered (some _)

/-- Whatever an operator answers, each operation that it is sent during a call is confined to a
model. -/
theorem Engine.confined_of_mem_recording (e : Engine σ) {specs : List ModelSpec}
    (loaded : Registry.ofSpecs specs = .ok e.registry) (patience : Nat) (call : Call) (s : σ) :
    ∀ entry ∈ e.recording patience call s, entry.1.Confined e.registry := by
  intro entry hentry
  have hsends := (e.recorded.runner patience).answer_sends rfl call
  exact (hsends.recorded s entry hentry).confined loaded

namespace Blog

def specs : List ModelSpec :=
  [{ name := "post"
     config := ⟨some "id", some "posts", none, false, false, some "post", some "posts"⟩
     relationships := [("author", { kind := .belongsTo, model := "user",
                                    foreignKey := some "author_id" })] },
   { name := "user"
     config := ⟨some "id", some "users", none, true, false, some "user", some "users"⟩
     relationships := [("posts", { kind := .hasMany, model := "post",
                                   foreignKey := some "author_id" })] }]

theorem loaded : Registry.ofSpecs specs = .ok registry := by rfl

/-- An operator that finds one row everywhere, which is marked as deleted. -/
def haunted : Host Unit where
  execute op _ :=
    let row : Json := .obj [("author_id", .str "b"), ("deleted_at", .int 1), ("id", .str "b")]
    match op with
    | .select op => (.ok (.selected { result := [row], operation := op }), ())
    | _ => (.ok (.rows [row]), ())
  now s := ("", s)
  freshKey s := ("", s)

def hauntedEngine : Engine Unit := { registry, settings := {}, host := haunted }

/-- The posts of authors of a name, with their authors. -/
def postsOfAda : Call :=
  .action "post" "readList"
    (.obj [("expand", .arr [.str "author"]), ("filters", .obj [("author.name", .str "ada")])])

/-- The subquery, the select and the expansion of a read are confined, although the operator answers
all of them with a row that is marked as deleted. -/
theorem confined_postsOfAda :
    Registry.ofSpecs specs = .ok hauntedEngine.registry ∧
      (hauntedEngine.recording 0 postsOfAda ()).map (fun entry => (entry.1.kind, entry.1.table)) =
        [("select", "users"), ("select", "posts"), ("select", "users")] ∧
      ∀ entry ∈ hauntedEngine.recording 0 postsOfAda (), entry.1.Confined registry := by
  refine ⟨loaded, ?_, hauntedEngine.confined_of_mem_recording loaded 0 postsOfAda ()⟩
  decide +kernel

end Blog
end ModelActions
