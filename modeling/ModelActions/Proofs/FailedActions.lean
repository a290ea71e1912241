import ModelActions.Proofs.ReadBack
import ModelActions.Proofs.WrittenRows

/-!
# Failed actions change nothing

There are no transactions, so that a built-in action that fails must not have written anything.
Creating and updating write before they read back. Where reading back cannot fail, no action that
fails has changed a table; where it can, the one write stays.
-/
namespace ModelActions

open Act (Succeeds Sends AllOrNothing)
open Operation (GuardedSelect)

namespace Walk
variable {world : World} {registry : Registry} {settings : Settings} {m : Model} {action : String}
  {traced : Bool}

theorem validate_sends (Q : Json → Prop) (ctx : Context Store) {input : Json} (hinput : Q input) :
    Sends ctx.host (GuardedSelect ctx.registry)
      (Act.ofExcept (Task.validate ctx.model.schema ctx.action input)) Q :=
  (Sends.ofExcept _).weaken fun _ h => Task.validate_eq_ok h ▸ hinput

theorem create_safe {U : Prop} (hm : registry.models.get? m.name = some m)
    (readable : ¬U → Task.Readable registry m) (fuel : Nat) :
    Safe world (fun op => U ∧ op.Stores m.table) Graph.create
      (Store.context world registry settings m action) traced (fuel + 5) "CleanInput"
      fun input => ¬U → m.schema = [] → input.get? "filters" = none := by
  -- from the cleaning on, no row is mistaken for a request
  have hinsert : Safe world (fun op => U ∧ op.Stores m.table) Graph.create
      (Store.context world registry settings m action) traced (fuel + 2) "DatabaseInsert"
      fun input => ¬U → Task.isRequest m input = false := by
    refine .taskTo_taskEnd rfl rfl rfl rfl ?_ ?_ ?_
    · exact fun input _ => Task.insert_allOrNothing world registry _ settings m action input
    · exact Task.read_readsOnly
    · intro input output s t hinput hrun
      by_cases hU : U
      · exact .inr ((Task.insert_written hrun).mono fun op hop => ⟨hU, hop⟩)
      · left
        obtain ⟨rfl, hshape, -⟩ := Task.insert_result hrun
        exact Task.read_succeeds hm (readable hU) (hinput hU) hshape
  have hgenerate : Safe world (fun op => U ∧ op.Stores m.table) Graph.create
      (Store.context world registry settings m action) traced (fuel + 3) "GenerateAttributes"
      fun input => ¬U → Task.isRequest m input = false := by
    refine .taskTo rfl rfl (fun input hinput => ?_) rfl hinsert
    by_cases hU : U
    · exact (Task.generate_sends _ _ input).weaken fun _ _ h => absurd hU h
    · exact (Task.generate_sends_rows _ _ (hinput hU)).weaken fun _ h _ => h
  have hvalidate : Safe world (fun op => U ∧ op.Stores m.table) Graph.create
      (Store.context world registry settings m action) traced (fuel + 4) "ValidateInput"
      fun input => ¬U → Task.isRequest m input = false :=
    .taskTo rfl rfl (fun input hinput => validate_sends _ _ hinput) rfl hgenerate
  exact .taskTo rfl rfl (fun input hinput => (Sends.ofExcept _).weaken fun output h hU =>
    Task.clean_isRequest h (hinput hU)) rfl hvalidate

theorem update_safe {U : Prop} (hm : registry.models.get? m.name = some m)
    (readable : ¬U → Task.Readable registry m) (fuel : Nat) :
    Safe world (fun op => U ∧ op.Stores m.table) Graph.update
      (Store.context world registry settings m action) traced (fuel + 3) "ValidateInput"
      fun _ => True := by
  have hupdate : Safe world (fun op => U ∧ op.Stores m.table) Graph.update
      (Store.context world registry settings m action) traced (fuel + 2) "DatabaseUpdate"
      fun _ => True := by
    refine .taskTo_taskEnd rfl rfl rfl rfl ?_ ?_ ?_
    · exact fun input _ => Task.update_allOrNothing world registry _ settings m action input
    · exact Task.read_readsOnly
    · intro input output s t _ hrun
      by_cases hU : U
      · exact .inr ((Task.update_written hrun).mono fun op hop => ⟨hU, hop⟩)
      · have harray := Task.update_result hrun
        have hrequest : Task.isRequest m output = false := Task.isRequest_of_isArray harray
        exact .inl (Task.read_succeeds hm (readable hU) hrequest (.inr harray))
  exact .taskTo rfl rfl (fun input hinput => validate_sends _ _ hinput) rfl hupdate

variable {P : Operation → Prop}

theorem delete_safe (fuel : Nat) :
    Safe world P Graph.delete (Store.context world registry settings m action) traced (fuel + 3)
      "ValidateInput" fun _ => True := by
  have hsoft : Safe world P Graph.delete (Store.context world registry settings m action) traced
      (fuel + 1) "SoftDelete" fun _ => True :=
    .taskEnd rfl rfl fun input _ =>
      Task.delete_allOrNothing world registry P settings m action true input
  have hhard : Safe world P Graph.delete (Store.context world registry settings m action) traced
      (fuel + 1) "HardDelete" fun _ => True :=
    .taskEnd rfl rfl fun input _ =>
      Task.delete_allOrNothing world registry P settings m action false input
  exact .taskTo rfl rfl (fun input hinput => validate_sends _ _ hinput) rfl
    (.branch rfl hsoft hhard)

theorem readOne_safe (fuel : Nat) :
    Safe world P Graph.readOne (Store.context world registry settings m action) traced (fuel + 4)
      "ValidateInput" fun _ => True := by
  have hnotFound : Safe world P Graph.readOne (Store.context world registry settings m action)
      traced (fuel + 1) "NotFound" fun _ => True :=
    .taskEnd rfl rfl fun input _ => .ofExcept (.error (.notFound m.name))
  have hsuccess : Safe world P Graph.readOne (Store.context world registry settings m action)
      traced (fuel + 1) "Success" fun _ => True :=
    .taskEnd rfl rfl fun input _ => .of_succeeds (.pure _)
  have hread : Safe world P Graph.readOne (Store.context world registry settings m action) traced
      (fuel + 3) "DatabaseRead" fun _ => True :=
    .taskTo rfl rfl (fun input _ => Task.read_sends _ input) rfl (.branch rfl hnotFound hsuccess)
  exact .taskTo rfl rfl (fun input hinput => validate_sends _ _ hinput) rfl hread

theorem readList_safe (fuel : Nat) :
    Safe world P Graph.readList (Store.context world registry settings m action) traced (fuel + 4)
      "ValidateInput" fun _ => True := by
  have htransform : Safe world P Graph.readList (Store.context world registry settings m action)
      traced (fuel + 1) "TransformResults" fun _ => True :=
    .taskEnd rfl rfl fun input _ => .ofExcept (Task.summarizeJson input)
  have hpaginate : Safe world P Graph.readList (Store.context world registry settings m action)
      traced (fuel + 2) "DatabasePaginate" fun _ => True :=
    .taskTo rfl rfl (fun input _ => Task.select_sends _ true input) rfl htransform
  have hselect : Safe world P Graph.readList (Store.context world registry settings m action)
      traced (fuel + 2) "DatabaseSelect" fun _ => True :=
    .taskTo rfl rfl (fun input _ => Task.select_sends _ false input) rfl htransform
  exact .taskTo rfl rfl (fun input hinput => validate_sends _ _ hinput) rfl
    (.branch rfl hpaginate hselect)

end Walk

/-- What an action writes may not be read back: a created row has a column by which it is mistaken
for a request, or the primary key cannot be the path of a leaf. -/
def Task.Unread (registry : Registry) (m : Model) (action : Action) (input : Json) : Prop :=
  (action = .create ∧ m.schema = [] ∧ input.get? "filters" ≠ none) ∨
    ((action = .create ∨ action = .update) ∧ ¬Readable registry m)

namespace Runner
variable {world : World} {registry : Registry} {settings : Settings} {patience : Nat}

theorem drive_allOrNothing {P : Operation → Prop} {model : String} {m : Model}
    (hm : registry.models.get? model = some m) (action : String) {g : Graph} {Q : Json → Prop}
    {input : Json} (hinput : Q input) {fuel : Nat}
    (safe : Walk.Safe world P g (Store.context world registry settings m action)
      settings.debugTrace fuel g.start Q) (hfuel : g.states.length + 1 + patience = fuel) :
    ((Store.runner world registry settings patience).drive model action g
      input).AllOrNothing world P := by
  subst hfuel
  rw [drive_eq]
  refine .ofExcept_bind fun m' hm' => ?_
  obtain rfl := Option.some.inj (hm.symm.trans (Registry.get_eq_ok.1 hm'))
  exact safe "StartAt" _ hinput

/-- A built-in action that fails has changed no table, or what it wrote is not read back. -/
theorem run_allOrNothing {specs : List ModelSpec} (loaded : Registry.ofSpecs specs = .ok registry)
    {model action : String} {input : Json} (builtin : (Action.ofName action).isBuiltin = true) :
    ((Store.runner world registry settings patience).run model action input).AllOrNothing world
      fun op => ∃ m, registry.models.get? model = some m ∧
        Task.Unread registry m (Action.ofName action) input ∧ op.Stores m.table := by
  refine .ofExcept_bind fun m hm => .ofExcept_bind fun input' hinput => ?_
  refine .ofExcept_bind fun g hg => ?_
  replace hm := Registry.get_eq_ok.1 hm
  have hm' := Registry.get?_name_of_ofSpecs loaded hm
  have hunread (op : Operation) (h : Task.Unread registry m (Action.ofName action) input ∧
      op.Stores m.table) : ∃ m, registry.models.get? model = some m ∧
        Task.Unread registry m (Action.ofName action) input ∧ op.Stores m.table := ⟨m, hm, h⟩
  cases ha : Action.ofName action with
  | create =>
    rw [ha] at hinput hg hunread
    obtain ⟨_, -, hinput⟩ := bind_eq_ok.1 hinput
    cases hinput
    cases hg
    have readable (h : ¬Task.Unread registry m .create input) : Task.Readable registry m := by
      by_contra hreadable
      exact h (.inr ⟨.inl rfl, hreadable⟩)
    have plain (h : ¬Task.Unread registry m .create input) (hschema : m.schema = []) :
        input.get? "filters" = none := by
      by_contra hfilters
      exact h (.inl ⟨rfl, hschema, hfilters⟩)
    have hlength : Graph.create.states.length = 5 := rfl
    exact (drive_allOrNothing hm _ plain (Walk.create_safe hm' readable (patience + 1))
      (by omega)).mono hunread
  | update =>
    rw [ha] at hg hunread
    cases hg
    have readable (h : ¬Task.Unread registry m .update input) : Task.Readable registry m := by
      by_contra hreadable
      exact h (.inr ⟨.inr rfl, hreadable⟩)
    have hlength : Graph.update.states.length = 3 := rfl
    exact (drive_allOrNothing hm _ trivial (Walk.update_safe hm' readable (patience + 1))
      (by omega)).mono hunread
  | delete =>
    rw [ha] at hg
    cases hg
    have hlength : Graph.delete.states.length = 4 := rfl
    exact drive_allOrNothing hm _ trivial (Walk.delete_safe (patience + 2)) (by omega)
  | readOne =>
    rw [ha] at hg
    cases hg
    have hlength : Graph.readOne.states.length = 5 := rfl
    exact drive_allOrNothing hm _ trivial (Walk.readOne_safe (patience + 2)) (by omega)
  | readList =>
    rw [ha] at hg
    cases hg
    have hlength : Graph.readList.states.length = 5 := rfl
    exact drive_allOrNothing hm _ trivial (Walk.readList_safe (patience + 2)) (by omega)
  | custom name =>
    rw [ha] at builtin
    contradiction

/-- A built-in action that fails has changed no table. Only where what is written may not be read
back, the insert or update that came first may stay. -/
theorem rows_of_failed_run {specs : List ModelSpec}
    (loaded : Registry.ofSpecs specs = .ok registry) {model action : String} {input : Json}
    (builtin : (Action.ofName action).isBuiltin = true) {s t : Store} {e : Error}
    (failed : ((Store.runner world registry settings patience).run model action input).runFrom s =
      (.error e, t)) :
    t.rows = s.rows ∨ ∃ m op, registry.models.get? model = some m ∧
      Task.Unread registry m (Action.ofName action) input ∧ op.Stores m.table ∧
      t.rows = (Store.carryOut world op s).2.rows := by
  rcases run_allOrNothing loaded builtin s t e failed with hrows | hwritten
  · exact .inl hrows
  · obtain ⟨op, ⟨m, hm, hunread, hop⟩, hrows⟩ := hwritten
    exact .inr ⟨m, op, hm, hunread, hop, hrows⟩

end Runner

/-! ## Notes without a schema -/

namespace Notes

def spec (key : String) : ModelSpec where
  name := "note"
  config := ⟨some key, some "notes", none, false, false, some "note", some "notes"⟩

def registry (key : String) : Registry :=
  ⟨[("note", ⟨"note", [], ⟨key, "notes", none, false, false, "note", "notes"⟩, [], [], [], []⟩)]⟩

theorem loaded (key : String) : Registry.ofSpecs [spec key] = .ok (registry key) := by rfl

def store : Store :=
  { rows := fun table => if table = "notes" then [.obj [("a.b", .int 1)]] else [] }

/-- A run on notes that have the given primary key. -/
def run (key action : String) (input : Json) : Except Error Packet × Store :=
  ((Store.runner Blog.world (registry key) {} 0).run "note" action input).runFrom store

/-- The rows of two notes have to have the same columns. -/
theorem rows_of_uneven_create :
    (run "id" "create" (.arr [.obj [("a", .int 1)], .obj [("b", .int 1)]])).1.isOk = false ∧
      (run "id" "create" (.arr [.obj [("a", .int 1)], .obj [("b", .int 1)]])).2.rows =
        store.rows := by
  have hfailed : (run "id" "create" (.arr [.obj [("a", .int 1)], .obj [("b", .int 1)]])).1 =
      .error (.invalid "rows[1]" .columnsDiffer) := by cbv
  refine ⟨by rw [hfailed]; rfl, ?_⟩
  generalize hrun : run "id" "create" (.arr [.obj [("a", .int 1)], .obj [("b", .int 1)]]) = answer
    at hfailed ⊢
  obtain ⟨result, t⟩ := answer
  obtain rfl : result = _ := hfailed
  rcases Runner.rows_of_failed_run (loaded "id") rfl hrun with hrows | ⟨m, op, hm, hunread, -⟩
  · exact hrows
  · have hreadable : Task.Readable (registry "id") m := by
      obtain rfl := Option.some.inj hm
      exact ⟨by decide, .here (.inl (by decide +kernel))⟩
    rcases hunread with ⟨-, -, hfilters⟩ | ⟨-, hunreadable⟩
    · exact absurd rfl hfilters
    · exact absurd hreadable hunreadable

/-- A row that was written is mistaken for a request, or has a key by which it cannot be read back:
the action fails, and the row stays. -/
theorem failed_runs_write :
    (run "id" "create" (.obj [("filters", .int 5)])).1.isOk = false ∧
    (run "id" "create" (.obj [("filters", .int 5)])).2.rows "notes" =
      [.obj [("a.b", .int 1)], .obj [("filters", .int 5)]] ∧
    (run "" "create" (.obj [("", .int 1)])).1.isOk = false ∧
    (run "" "create" (.obj [("", .int 1)])).2.rows "notes" =
      [.obj [("a.b", .int 1)], .obj [("", .int 1)]] ∧
    (run "a.b" "update" (.obj [("conditions", .obj [("x", .null)]),
      ("data", .obj [("x", .int 2)])])).1.isOk = false ∧
    (run "a.b" "update" (.obj [("conditions", .obj [("x", .null)]),
      ("data", .obj [("x", .int 2)])])).2.rows "notes" =
      [.obj [("a.b", .int 1), ("x", .int 2)]] := by
  refine ⟨by cbv, by cbv, by cbv, by cbv, by cbv, by cbv⟩

end Notes
end ModelActions
