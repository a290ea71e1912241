import ModelActions.Proofs.CreatedRows
import ModelActions.Proofs.RepeatedDeletes
import ModelActions.Proofs.Sessions
import ModelActions.Proofs.UpdatedRows

/-!
# Typed stores

What callers write is checked against the schema. Times of creation and change, and marks of
deletion, are filled in later: they are the only values of another type that a row comes to have.
-/
namespace ModelActions

/-- The values that are filled in at some time, whatever the types of their columns. -/
inductive Model.Fills (m : Model) (world : World) : String → Json → Prop
  | created (timestamps : m.config.timestamps = true) :
      Fills m world "created_at" (.str world.now)
  | updated (timestamps : m.config.timestamps = true) :
      Fills m world "updated_at" (.str world.now)
  | deleted (softDelete : m.config.softDelete = true) :
      Fills m world deletedAt (.ofNat world.second)

/-- A value has the type of its column, or was filled in at one of some times. -/
def Model.Admits (m : Model) (worlds : List World) (column : String) (value : Json) : Prop :=
  ∀ type, m.schema.get? column = some type →
    type.accepts value = true ∨ ∃ world ∈ worlds, m.Fills world column value

/-- All values under the columns of a row may be there. -/
def Model.Fits (m : Model) (worlds : List World) (row : Row) : Prop :=
  ∀ e ∈ row, m.Admits worlds e.1 e.2

/-- All values that are found in a row may be there. -/
def Model.Types (m : Model) (worlds : List World) (row : Json) : Prop :=
  ∀ column value, row.get? column = some value → m.Admits worlds column value

/-- The types of a schema accept all that is filled in under their columns. -/
def Model.Suited (m : Model) : Prop :=
  ∀ world column value type, m.Fills world column value → m.schema.get? column = some type →
    type.accepts value = true

/-- The rows of all models have the types of the schema, except for what was filled in at one of
some times. -/
def Store.Typed (s : Store) (registry : Registry) (worlds : List World) : Prop :=
  ∀ name m, registry.models.get? name = some m → ∀ row ∈ s.rows m.table, m.Types worlds row

/-- What an operation puts into the table of a model may be there. -/
def Operation.Fits (m : Model) (world : World) : Operation → Prop
  | .insert op => op.table = m.table ∧ ∀ row ∈ op.payload.toList, m.Fits [world] row
  | .update op => op.table = m.table ∧ m.Fits [world] op.data
  | .delete op => op.table = m.table ∧ op.soft = m.config.softDelete
  | .select _ => True

namespace Model
variable {m : Model} {world : World} {worlds worlds' : List World} {row data : Row}

theorem Admits.mono {column : String} {value : Json} (h : m.Admits worlds column value)
    (hworlds : worlds ⊆ worlds') : m.Admits worlds' column value := by
  intro type htype
  refine (h type htype).imp id ?_
  rintro ⟨world, hworld, hfills⟩
  exact ⟨world, hworlds hworld, hfills⟩

theorem Fits.mono (h : m.Fits worlds row) (hworlds : worlds ⊆ worlds') : m.Fits worlds' row :=
  fun e he => (h e he).mono hworlds

theorem Types.mono {row : Json} (h : m.Types worlds row) (hworlds : worlds ⊆ worlds') :
    m.Types worlds' row :=
  fun column value hvalue => (h column value hvalue).mono hworlds

theorem Fits.types (h : m.Fits worlds row) : m.Types worlds (.obj row) :=
  fun _ _ hvalue => h _ (Members.mem_of_get? hvalue)

theorem Types.overwrite {row : Json} (h : m.Types worlds row) (hdata : m.Fits worlds data) :
    m.Types worlds (row.overwrite data) := by
  cases row with
  | obj members =>
    intro column value hvalue
    rcases Members.mem_of_get?_overwrite members hvalue with hnew | hold
    · exact hdata _ hnew
    · exact h column value hold
  | _ => exact h

theorem Fits.insert (h : m.Fits worlds row) {column : String} {value : Json}
    (hvalue : m.Admits worlds column value) : m.Fits worlds (row.insert column value) := by
  intro e he
  rcases Members.mem_of_mem_insert he with rfl | hold
  · exact hvalue
  · exact h e hold

theorem Fills.admits {column : String} {value : Json} (h : m.Fills world column value) :
    m.Admits [world] column value := fun _ _ => .inr ⟨world, List.mem_singleton_self _, h⟩

theorem Accepts.fits (h : m.Accepts row) : m.Fits worlds row := fun e he type htype =>
  .inl (h e he type htype)

/-- A key is generated only for a column of keys. -/
theorem admits_key (hneeds : Task.needsKey m row = true) (key : String) :
    m.Admits worlds m.primaryKey (.str key) := by
  intro type htype
  simp only [Task.needsKey, Bool.and_eq_true, beq_iff_eq] at hneeds
  obtain rfl : type = .uuid := Option.some.inj (htype.symm.trans hneeds.1)
  exact .inl rfl

theorem Fits.stamp (h : m.Fits [world] row) : m.Fits [world] (Task.stamp (m.timeAt world) row) := by
  unfold timeAt
  split
  · next htimestamps =>
    have hcreated : m.Fits [world] (row.insertNew "created_at" (.str world.now)) := by
      unfold Members.insertNew
      split
      · exact h
      · exact h.insert (Fills.created htimestamps).admits
    exact hcreated.insert (Fills.updated htimestamps).admits
  · exact h

theorem Fits.fill (h : m.Fits [world] row) (key : String) :
    m.Fits [world] (Task.fill m (m.timeAt world) key row) := by
  unfold Task.fill
  split
  · next hneeds => exact (h.insert (admits_key hneeds key)).stamp
  · exact h.stamp

theorem Fits.written (h : m.Fits [world] data) : m.Fits [world] (m.written world data) := by
  unfold Model.written timeAt
  split
  · next now hnow =>
    split at hnow
    · next htimestamps =>
      cases hnow
      exact h.insert (Fills.updated htimestamps).admits
    · cases hnow
  · exact h

theorem Makes.fits {row' : Row} (h : m.Makes world row row') : m.Fits [world] row' := by
  obtain ⟨haccepts, key, rfl⟩ := h
  exact haccepts.fits.fill key

/-- Where the schema suits what is filled in, nothing in a row has another type. -/
theorem Types.of_suited {row : Json} (suited : m.Suited) (h : m.Types worlds row) :
    m.Types [] row := by
  intro column value hvalue type htype
  rcases h column value hvalue type htype with haccepts | ⟨world, -, hfills⟩
  · exact .inl haccepts
  · exact .inl (suited world column value type hfills htype)

end Model

namespace Store.Typed
variable {registry : Registry} {world : World} {worlds worlds' : List World} {s t : Store}
  {name : String} {m : Model}

theorem mono (h : s.Typed registry worlds) (hworlds : worlds ⊆ worlds') :
    s.Typed registry worlds' :=
  fun name m hm row hrow => (h name m hm row hrow).mono hworlds

theorem of_rows (h : s.Typed registry worlds) (ht : t.rows = s.rows) :
    t.Typed registry worlds := by
  intro name m hm row hrow
  rw [ht] at hrow
  exact h name m hm row hrow

/-- The table of a model may be replaced by rows that have the types of its schema. -/
theorem put (distinct : registry.DistinctTables) (hm : registry.models.get? name = some m)
    (h : s.Typed registry worlds) {rows : List Json} (hrows : ∀ row ∈ rows, m.Types worlds row) :
    (s.put m.table rows).Typed registry worlds := by
  intro name' m' hm' row hrow
  by_cases htable : m'.table = m.table
  · obtain rfl := distinct hm' hm htable
    rw [rows_put_self] at hrow
    exact hrows row hrow
  · rw [rows_put_of_ne s rows htable] at hrow
    exact h name' m' hm' row hrow

theorem amend (distinct : registry.DistinctTables) (hm : registry.models.get? name = some m)
    (h : s.Typed registry worlds) (g : FilterGroup) {data : Row} (hdata : m.Fits worlds data) :
    (s.amend m.table g data).2.Typed registry worlds := by
  refine h.put distinct hm fun row hrow => ?_
  obtain ⟨old, hold, rfl⟩ := List.mem_map.1 hrow
  have htypes := h name m hm old hold
  split
  · exact htypes.overwrite hdata
  · exact htypes

/-- An operation that puts only fitting values into a table keeps a store typed. -/
theorem carryOut (distinct : registry.DistinctTables) (hm : registry.models.get? name = some m)
    (h : s.Typed registry worlds) (hworld : world ∈ worlds) {op : Operation}
    (fits : op.Fits m world) : (carryOut world op s).2.Typed registry worlds := by
  have hworlds : [world] ⊆ worlds := by simpa using hworld
  cases op with
  | insert op =>
    obtain ⟨htable, hrows⟩ := fits
    rw [Store.carryOut, htable]
    refine h.put distinct hm fun row hrow => ?_
    rcases List.mem_append.1 hrow with hold | hnew
    · exact h name m hm row hold
    · obtain ⟨new, hmem, rfl⟩ := List.mem_map.1 hnew
      exact ((hrows new hmem).mono hworlds).types
  | update op =>
    obtain ⟨htable, hdata⟩ := fits
    rw [Store.carryOut, htable]
    exact h.amend distinct hm _ (hdata.mono hworlds)
  | delete op =>
    obtain ⟨htable, hsoft⟩ := fits
    rw [Store.carryOut, htable, hsoft]
    cases hdeletes : m.config.softDelete with
    | true =>
      have hmark : m.Fits [world] [(deletedAt, .ofNat world.second)] := by
        intro e he
        obtain rfl := List.mem_singleton.1 he
        exact (Model.Fills.deleted hdeletes).admits
      exact h.amend distinct hm _ (hmark.mono hworlds)
    | false =>
      refine h.put distinct hm fun row hrow => ?_
      exact h name m hm row (List.mem_of_mem_filter hrow)
  | select op => exact h

end Store.Typed

section
variable {world : World} {registry : Registry} {settings : Settings} {m : Model}
  {P : Operation → Prop}

namespace Task
variable {action : String} {input : Json}

theorem get?_of_asRow {place key : String} {row : Row}
    (h : asRow place ((input.get? key).getD .null) = .ok row) :
    input.get? key = some (.obj row) := by
  cases hget : input.get? key with
  | none =>
    rw [hget] at h
    cases h
  | some value =>
    rw [hget] at h
    cases value with
    | obj => exact congrArg (fun row => some (Json.obj row)) (Except.ok.inj h)
    | _ => cases h

theorem insert_writesOnce
    (hP : ∀ payload, payloadOf input = .ok payload → P (.insert ⟨m.table, m.name, payload⟩)) :
    (insert (Store.context world registry settings m action) input).WritesOnce world P := by
  refine .readsOnly_bind (.ofExcept _) fun hpayload => ?_
  refine .readsOnly_bind (.ofExcept _) fun hop => ?_
  rw [Act.runFrom_ofExcept, Prod.mk.injEq] at hpayload hop
  obtain rfl := Insert.eq_of_make hop.1
  exact .bind_readsOnly (.perform (hP _ hpayload.1)) fun answer => .pure _

theorem update_writesOnce (hP : ∀ data g, input.get? "data" = some (.obj data) →
      P (.update (m.change g (m.written world data)))) :
    (update (Store.context world registry settings m action) input).WritesOnce world P := by
  refine .readsOnly_bind (.ofExcept _) fun hdata => ?_
  refine .readsOnly_bind currentTime_readsOnly fun hnow => ?_
  rw [Act.runFrom_ofExcept, Prod.mk.injEq] at hdata
  -- what is written is known only with the time that was read, which is that of the store
  rw [runFrom_currentTime, Prod.mk.injEq] at hnow
  obtain rfl := Except.ok.inj hnow.1
  refine .readsOnly_bind (.ofExcept _) fun _ => ?_
  refine .readsOnly_bind (Pushdown.resolveGroup_readsOnly _) fun hresolve => ?_
  obtain ⟨g, rfl⟩ := (Pushdown.resolveGroup_sends (Store.engine world registry settings) m
    _).result hresolve
  refine .bind_readsOnly (.perform ?_) fun answer => .pure _
  exact hP _ g (get?_of_asRow hdata.1)

theorem delete_writesOnce (hP : ∀ g, P (.delete (m.deletion g))) :
    (delete m.config.softDelete (Store.context world registry settings m action)
      input).WritesOnce world P := by
  refine .readsOnly_bind (.ofExcept _) fun _ => ?_
  refine .readsOnly_bind (Pushdown.resolveGroup_readsOnly _) fun hresolve => ?_
  obtain ⟨g, rfl⟩ := (Pushdown.resolveGroup_sends (Store.engine world registry settings) m
    _).result hresolve
  exact .bind_readsOnly (.perform (hP g)) fun answer => .pure _

theorem accepts_of_validate {input output : Json} {data : Row}
    (h : validate m.schema "update" input = .ok output)
    (hdata : output.get? "data" = some (.obj data)) : m.Accepts data := by
  have houtput := validate_eq_ok h
  subst houtput
  simp only [validate, hdata] at h
  obtain ⟨_, htypes, -⟩ := bind_eq_ok.1 h
  exact checkTypes_eq_ok.1 htypes

end Task

namespace Steps
variable {input : Json}

theorem create_fits :
    (create (Store.context world registry settings m "create") input).WritesOnce world
      (·.Fits m world) := by
  refine .readsOnly_bind (prepare_readsOnly input) fun hprepare => ?_
  have hmade := prepare_eq_ok hprepare
  refine .bind_readsOnly (Task.insert_writesOnce fun payload hpayload => ⟨rfl, fun row hrow => ?_⟩)
    Task.read_readsOnly
  have hitem := List.mem_map_of_mem (f := Json.obj) hrow
  rw [(Task.payloadOf_eq_ok hpayload).1] at hitem
  obtain ⟨_, row', -, hrow', hmakes⟩ := hmade.exists_of_mem hitem
  cases hrow'
  exact hmakes.fits

theorem update_fits :
    (update (Store.context world registry settings m "update") input).WritesOnce world
      (·.Fits m world) := by
  refine .readsOnly_bind (.ofExcept _) fun hvalid => ?_
  rw [Act.runFrom_ofExcept, Prod.mk.injEq] at hvalid
  refine .bind_readsOnly (Task.update_writesOnce fun data g hdata => ⟨rfl, ?_⟩)
    Task.read_readsOnly
  exact (Task.accepts_of_validate hvalid.1 hdata).fits.written

theorem delete_fits :
    (delete (Store.context world registry settings m "delete") input).WritesOnce world
      (·.Fits m world) := by
  refine .readsOnly_bind (.ofExcept _) fun _ => ?_
  exact Task.delete_writesOnce fun g => ⟨rfl, rfl⟩

end Steps

/-- The call of a built-in action. -/
def Call.IsBuiltin : Call → Prop
  | .action _ name _ => (Action.ofName name).isBuiltin = true
  | .graph .. => False

namespace Runner
variable {patience : Nat} {model action : String} {input : Json}

/-- Running an action leaves the same state, whether its output is wanted or its packet. -/
theorem execute_state (s : Store) :
    (((Store.runner world registry settings patience).execute model action input).runFrom s).2 =
      (((Store.runner world registry settings patience).run model action input).runFrom s).2 := by
  rw [execute, Act.runFrom_bind]
  split <;> next h => simp [h]

/-- An action is turned down, or is one of a model, with an accepted input. -/
theorem run_writesOnce (haccepted : ∀ m checked, registry.models.get? model = some m →
      Input.check (Action.ofName action) settings input = .ok checked →
      ((Store.runner world registry settings patience).execute model action input).WritesOnce
        world P) :
    ((Store.runner world registry settings patience).run model action input).WritesOnce
      world P := by
  intro s
  cases hstart : (Store.runner world registry settings patience).start
      (.action model action input) with
  | error e =>
    have hanswer := (Store.runner world registry settings patience).runFrom_answer
      (.action model action input) s
    rw [hstart, answer] at hanswer
    rw [hanswer]
    exact .inl rfl
  | ok start =>
    obtain ⟨m, hm, hstart⟩ := bind_eq_ok.1 hstart
    obtain ⟨checked, hchecked, -⟩ := bind_eq_ok.1 hstart
    have hwrites := haccepted m checked (Registry.get_eq_ok.1 hm) hchecked s
    rwa [execute_state] at hwrites

/-- A built-in action carries out one operation that writes at most, and its values fit. -/
theorem run_fits (builtin : (Action.ofName action).isBuiltin = true) :
    ((Store.runner world registry settings patience).run model action input).WritesOnce world
      fun op => ∃ m, registry.models.get? model = some m ∧ op.Fits m world := by
  have hname := Action.name_ofName action
  have hreads (ha : Action.ofName action = .readOne ∨ Action.ofName action = .readList) :=
    ((Store.runner world registry settings patience).run_reads rfl model ha input).readsOnly
  cases ha : Action.ofName action with
  | create =>
    rw [ha] at hname
    obtain rfl : action = "create" := hname.symm
    refine run_writesOnce fun m checked hm accepted => ?_
    exact Steps.create_fits.of_runFrom (runFrom_execute_create _ rfl hm accepted)
      fun op hop => ⟨m, hm, hop⟩
  | update =>
    rw [ha] at hname
    obtain rfl : action = "update" := hname.symm
    refine run_writesOnce fun m checked hm accepted => ?_
    exact Steps.update_fits.of_runFrom (runFrom_execute_update _ rfl hm accepted)
      fun op hop => ⟨m, hm, hop⟩
  | delete =>
    rw [ha] at hname
    obtain rfl : action = "delete" := hname.symm
    refine run_writesOnce fun m checked hm accepted => ?_
    exact Steps.delete_fits.of_runFrom (runFrom_execute_delete _ rfl hm accepted)
      fun op hop => ⟨m, hm, hop⟩
  | readOne => exact .of_readsOnly (hreads (.inl ha))
  | readList => exact .of_readsOnly (hreads (.inr ha))
  | custom name =>
    rw [ha] at builtin
    cases builtin

end Runner

namespace Store.Typed
variable (settings : Settings) (patience : Nat) {s : Store} {worlds : List World}

theorem answer (h : s.Typed registry worlds) (distinct : registry.DistinctTables) {call : Call}
    (builtin : call.IsBuiltin) (hworld : world ∈ worlds) :
    (((runner world registry settings patience).answer call).runFrom s).2.Typed registry
      worlds := by
  cases call with
  | action model action input =>
    rcases Runner.run_fits builtin s with hrows | ⟨op, ⟨m, hm, hfits⟩, hrows⟩
    · exact h.of_rows hrows
    · exact (h.carryOut distinct hm hworld hfits).of_rows hrows
  | graph => cases builtin

theorem session (h : s.Typed registry worlds) (distinct : registry.DistinctTables)
    {calls : List (World × Call)} (builtin : ∀ entry ∈ calls, entry.2.IsBuiltin) :
    (session registry settings patience calls s).Typed registry (worlds ++ calls.map (·.1)) := by
  induction calls generalizing s worlds with
  | nil => simpa [Store.session] using h
  | cons entry calls ih =>
    obtain ⟨hentry, hcalls⟩ := List.forall_mem_cons.1 builtin
    -- the times of earlier calls stay, since rows may still hold them
    have hmono : s.Typed registry (worlds ++ [entry.1]) := h.mono (List.subset_append_left _ _)
    have hworld : entry.1 ∈ worlds ++ [entry.1] := by simp
    have hanswer := answer settings patience hmono distinct hentry hworld
    simpa [Store.session] using ih hanswer hcalls

end Store.Typed

namespace Store

/-- After any built-in actions, whether they succeed or fail, the values in a typed store have the
types of their columns, except for times and marks of deletion that were filled in by one of the
actions. Where the types of a schema accept those as well, there are no exceptions. -/
theorem session_typed (settings : Settings) (patience : Nat) (distinct : registry.DistinctTables)
    {calls : List (World × Call)} (builtin : ∀ entry ∈ calls, entry.2.IsBuiltin) {s : Store}
    (typed : s.Typed registry []) :
    let t := session registry settings patience calls s
    t.Typed registry (calls.map (·.1)) ∧
      ((∀ name m, registry.models.get? name = some m → m.Suited) → t.Typed registry []) := by
  have h := Typed.session settings patience typed distinct builtin
  refine ⟨h, fun suited name m hm row hrow => ?_⟩
  exact (h name m hm row hrow).of_suited (suited name m hm)

end Store
end

/-! ## An example: visits, whose times may have types of their own -/

namespace Visits

def schema (times marks : AttributeType) : Members AttributeType :=
  [("created_at", times), ("deleted_at", marks), ("id", .string), ("updated_at", times)]

def spec (times marks : AttributeType) : ModelSpec where
  name := "visit"
  schema := schema times marks
  config := ⟨some "id", some "visits", none, true, true, some "visit", some "visits"⟩

def model (times marks : AttributeType) : Model :=
  ⟨"visit", schema times marks, ⟨"id", "visits", none, true, true, "visit", "visits"⟩, [], [], [],
    []⟩

def registry (times marks : AttributeType) : Registry := ⟨[("visit", model times marks)]⟩

theorem loaded (times marks : AttributeType) :
    Registry.ofSpecs [spec times marks] = .ok (registry times marks) := by rfl

theorem get?_registry {times marks : AttributeType} {name : String} {m : Model}
    (hm : (registry times marks).models.get? name = some m) : m = model times marks := by
  have hmem := Members.mem_of_get? hm
  simp only [registry, List.mem_singleton, Prod.mk.injEq] at hmem
  exact hmem.2

theorem distinctTables (times marks : AttributeType) :
    (registry times marks).DistinctTables := by
  intro name name' m m' hm hm' _
  rw [get?_registry hm, get?_registry hm']

/-- Texts for times and counts for marks are what is filled in. -/
theorem suited : (model .datetime .integer).Suited := by
  rintro world column value type (_ | _ | _) htype <;> cases htype <;> rfl

def visit : Json := .obj [("id", .str "a")]

def store : Store := { rows := fun table => if table = "visits" then [visit] else [] }

theorem typed (times marks : AttributeType) : store.Typed (registry times marks) [] := by
  intro name m hm row hrow column value hvalue
  obtain rfl := get?_registry hm
  obtain rfl : row = visit := by simpa [store, model, Model.table] using hrow
  obtain ⟨rfl, rfl⟩ : column = "id" ∧ value = .str "a" := by
    simpa [visit, Json.get?_obj, Members.get?, eq_comm] using hvalue
  rintro type ⟨⟩
  exact .inl rfl

def create : Call := .action "visit" "create" (.obj [("id", .str "b")])

def delete : Call := .action "visit" "delete" (.obj [("conditions", .obj [("id", .str "a")])])

/-- A call with a value of the wrong type. -/
def mistyped : Call := .action "visit" "create" (.obj [("id", .int 5)])

/-- The store after one call. -/
def after (times marks : AttributeType) (call : Call) : Store :=
  Store.session (registry times marks) {} 0 [(Blog.world, call)] store

theorem rows_create (times marks : AttributeType) :
    (after times marks create).rows "visits" =
      [visit, .obj [("created_at", .str Blog.world.now), ("id", .str "b"),
        ("updated_at", .str Blog.world.now)]] := by
  cbv

theorem session_typed_times :
    (registry .datetime .integer).DistinctTables ∧ store.Typed (registry .datetime .integer) [] ∧
      (model .datetime .integer).Suited ∧
      (Store.session (registry .datetime .integer) {} 0
        [(Blog.world, create), (Blog.world, mistyped), (Blog.world, delete)] store).Typed
          (registry .datetime .integer) [] := by
  refine ⟨distinctTables _ _, typed _ _, suited, ?_⟩
  have builtin : ∀ entry ∈ [(Blog.world, create), (Blog.world, mistyped), (Blog.world, delete)],
      entry.2.IsBuiltin := by
    simp [create, mistyped, delete, Call.IsBuiltin, Action.ofName, Action.isBuiltin]
  have h := Store.session_typed {} 0 (distinctTables .datetime .integer) builtin (typed _ _)
  refine h.2 fun name m hm => ?_
  obtain rfl := get?_registry hm
  exact suited

/-- The visits with the key `a`. -/
def isA : FilterGroup := .leaf "id" .eq (.str "a")

theorem rows_delete (times marks : AttributeType) :
    (after times marks delete).rows "visits" =
      [.obj [("deleted_at", .ofNat Blog.world.second), ("id", .str "a")]] := by
  have hm : (registry times marks).models.get? "visit" = some (model times marks) := rfl
  have accepted : Input.check .delete {} (.obj [("conditions", .obj [("id", .str "a")])]) =
      .ok (.obj [("conditions", isA.toJson)]) := rfl
  have hparse : Filter.parse (((Json.obj [("conditions", isA.toJson)]).get? "conditions").getD
      .null) = .ok (some isA) := rfl
  have pushed : (Pushdown.pushGroup (Store.engine Blog.world (registry times marks) {})
      (model times marks) isA).runFrom store = (.ok isA, store) := by
    have hlocal : Pushdown.Local (model times marks) "id" := .inl (by decide +kernel)
    rw [isA, FilterGroup.leaf, Pushdown.pushGroup_of_local _ _ ⟨"id", .eq, .str "a"⟩ hlocal]
    rfl
  have hstate : after times marks delete = (Store.execute Blog.world
      (.delete ((model times marks).deletion isA)) store).2 := by
    refine (Runner.execute_state store).symm.trans ?_
    rw [Runner.runFrom_execute_delete_store hm accepted, Task.runFrom_delete hparse pushed]
  rw [hstate]
  cbv

/-- Times that are declared to be integers are filled in as texts, and marks that are declared to be
times as integers. -/
theorem session_untyped :
    Registry.ofSpecs [spec .integer .datetime] = .ok (registry .integer .datetime) ∧
      (registry .integer .datetime).DistinctTables ∧ create.IsBuiltin ∧ delete.IsBuiltin ∧
      store.Typed (registry .integer .datetime) [] ∧
      ¬(after .integer .datetime create).Typed (registry .integer .datetime) [] ∧
      ¬(after .integer .datetime delete).Typed (registry .integer .datetime) [] := by
  have hm : (registry .integer .datetime).models.get? "visit" = some (model .integer .datetime) :=
    rfl
  refine ⟨loaded _ _, distinctTables _ _, rfl, rfl, typed _ _, fun h => ?_, fun h => ?_⟩
  · have hrows := rows_create .integer .datetime
    rcases h "visit" _ hm _ (hrows ▸ List.mem_cons_of_mem _ List.mem_cons_self) "created_at" _ rfl
      .integer rfl with haccepts | ⟨_, hworld, -⟩
    · cases haccepts
    · cases hworld
  · have hrows := rows_delete .integer .datetime
    rcases h "visit" _ hm _ (hrows ▸ List.mem_cons_self) "deleted_at" _ rfl .datetime rfl
      with haccepts | ⟨_, hworld, -⟩
    · cases haccepts
    · cases hworld

end Visits
end ModelActions
