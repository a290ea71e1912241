import ModelActions.Proofs.ActionSteps
import ModelActions.Proofs.FailedActions
import ModelActions.Proofs.ReadByKey
import ModelActions.Proofs.WrittenRows

/-!
# Created rows

A create cleans its rows, checks their types, fills them in and writes them, and then reads them
again. Where all of them have new keys, or none has a key, it answers with just the rows that it
wrote.
-/
namespace ModelActions

/-- What cleaning leaves of a row. -/
def Model.cleaned (m : Model) (row : Row) : Row :=
  if m.schema.isEmpty then row else row.filter fun e => m.schema.has e.1

/-- The columns of a row that have a type have values of that type. -/
def Model.Accepts (m : Model) (row : Row) : Prop :=
  ∀ e ∈ row, ∀ type, m.schema.get? e.1 = some type → type.accepts e.2 = true

/-- A row that a create makes of a row of its input. -/
def Model.Makes (m : Model) (world : World) (row row' : Row) : Prop :=
  m.Accepts (m.cleaned row) ∧ ∃ key, row' = Task.fill m (m.timeAt world) key (m.cleaned row)

namespace Task
variable {world : World} {registry : Registry} {settings : Settings} {m : Model} {action : String}
  {input output payload : Json} {s t : Store}

theorem checkTypes_eq_ok {schema : Members AttributeType} {place : String} {row : Row} :
    checkTypes schema place row = .ok () ↔
      ∀ e ∈ row, ∀ type, schema.get? e.1 = some type → type.accepts e.2 = true := by
  induction row with
  | nil => simp [checkTypes]
  | cons e row ih =>
    obtain ⟨column, value⟩ := e
    rw [checkTypes, List.forall_mem_cons, ← ih]
    cases hget : schema.get? column with
    | none => simp
    | some type => cases htype : type.accepts value <;> simp [htype]

/-- What is handed on to be written has been cleaned, and has the right types. -/
theorem validate_create_eq_ok {cleaned : Json} (hclean : clean m.schema input = .ok cleaned)
    (h : validate m.schema "create" cleaned = .ok output) :
    Reworks (fun row row' => row' = m.cleaned row ∧ m.Accepts row') input output := by
  have hvalid : Reworks (fun row row' => row' = row ∧ m.Accepts row) cleaned output := by
    simp only [validate] at h
    refine mapRows_eq_ok (fun i row row' hrow => ?_) h
    obtain ⟨_, htypes, hrow⟩ := bind_eq_ok.1 hrow
    cases hrow
    exact ⟨rfl, checkTypes_eq_ok.1 htypes⟩
  rcases clean_eq_ok hclean with ⟨hschema, rfl⟩ | ⟨hschema, hcleaned⟩
  · refine hvalid.mono ?_
    rintro row row' ⟨rfl, haccepts⟩
    refine ⟨?_, haccepts⟩
    simp [Model.cleaned, hschema]
  · refine hcleaned.trans hvalid ?_
    rintro row _ _ rfl ⟨rfl, haccepts⟩
    refine ⟨?_, haccepts⟩
    simp [Model.cleaned, hschema]

/-- Generating on a row store writes its time. -/
theorem generate_eq_ok
    (h : (generate (Store.context world registry settings m action) input).runFrom s =
      (.ok output, t)) :
    Reworks (fun row row' => ∃ key, row' = fill m (m.timeAt world) key row) input output := by
  rw [generate, Act.runFrom_bind_ok (runFrom_currentTime s)] at h
  have hrows := mapRows_sends (fun _ row => generateRow_sends
    (Store.context world registry settings m action) (fun _ => False) (m.timeAt world) row) input
  exact hrows.result h

end Task

namespace Steps
variable {world : World} {registry : Registry} {settings : Settings} {m : Model} {action : String}
  {input output payload : Json} {s t : Store}

theorem prepare_readsOnly (input : Json) :
    (prepare (Store.context world registry settings m action) input).ReadsOnly := by
  let ctx := Store.context world registry settings m action
  have hsends : Act.Sends ctx.host (Operation.GuardedSelect ctx.registry) (prepare ctx input)
      fun _ => True := by
    refine .bind (.ofExcept _) fun cleaned _ => .bind (.ofExcept _) fun checked _ => ?_
    exact (Task.generate_sends ctx _ checked).weaken fun _ _ => trivial
  exact hsends.readsOnly

/-- The rows of a create before they are written. -/
theorem prepare_eq_ok
    (h : (prepare (Store.context world registry settings m "create") input).runFrom s =
      (.ok payload, t)) : Task.Reworks (m.Makes world) input payload := by
  obtain ⟨cleaned, s₁, hclean, h⟩ := Act.runFrom_bind_eq_ok.1 h
  obtain ⟨checked, s₂, hchecked, h⟩ := Act.runFrom_bind_eq_ok.1 h
  rw [Act.runFrom_ofExcept, Prod.mk.injEq] at hclean hchecked
  have hvalid := Task.validate_create_eq_ok hclean.1 hchecked.1
  refine hvalid.trans (Task.generate_eq_ok h) ?_
  rintro row _ _ ⟨rfl, haccepts⟩ ⟨key, rfl⟩
  exact ⟨haccepts, key, rfl⟩

/-- The steps of a create that succeeds: its rows are written at the end of the table, and read
again. -/
theorem create_eq_ok
    (h : (create (Store.context world registry settings m "create") input).runFrom s =
      (.ok output, t)) :
    ∃ payload u, Task.Reworks (m.Makes world) input payload ∧
      u.rows = (s.seed m.table (Task.rowsOf payload)).rows ∧
      (Task.read (Store.context world registry settings m "create") payload).runFrom u =
        (.ok output, t) := by
  obtain ⟨payload, s₁, hprepare, h⟩ := Act.runFrom_bind_eq_ok.1 h
  obtain ⟨inserted, u, hinsert, hread⟩ := Act.runFrom_bind_eq_ok.1 h
  have hs₁ : s₁.rows = s.rows := (prepare_readsOnly input).rows_eq hprepare
  obtain ⟨rfl, -, hu⟩ := Task.insert_result hinsert
  refine ⟨_, u, prepare_eq_ok hprepare, ?_, hread⟩
  rw [hu, Store.seed, Store.put, hs₁]
  rfl

end Steps

/-- Only an input that has a member `filters`, on a model without a schema, is made into a row that
is taken for a request. -/
theorem Task.isRequest_of_makes {m : Model} {world : World} {input payload : Json}
    (h : Reworks (m.Makes world) input payload) :
    isRequest m payload = (m.schema.isEmpty && (input.get? "filters").isSome) := by
  cases h with
  | @row row _ h =>
    obtain ⟨-, key, rfl⟩ := h
    cases hlisted : m.schema.has "filters" with
    | true =>
      have hschema : m.schema ≠ [] := by
        intro hschema
        rw [hschema] at hlisted
        cases hlisted
      simp [isRequest, hlisted, hschema]
    | false =>
      rw [isRequest, Json.get?_obj, Json.get?_obj, get?_fill hlisted (by decide) (by decide),
        hlisted, Model.cleaned]
      cases hschema : m.schema.isEmpty with
      | true => simp
      | false =>
        have hnone : Members.get? (row.filter fun e => m.schema.has e.1) "filters" = none := by
          refine Option.eq_none_iff_forall_ne_some.2 fun value hvalue => ?_
          have hmem := List.mem_filter.1 (Members.mem_of_get? hvalue)
          simp [hlisted] at hmem
        simp [hnone]
  | rows h => simp [isRequest, Json.get?]

/-- Among rows with other keys, the rows that have the key of one of some rows are these rows
themselves. -/
theorem Model.filter_sharesKey_append {m : Model} {old rows : List Json}
    (fresh : ∀ row ∈ old, m.sharesKey rows row = false)
    (keyed : ∀ row ∈ rows, (m.keyOf row).isNull = false) :
    (old ++ rows).filter (m.sharesKey rows) = rows := by
  have hold : old.filter (m.sharesKey rows) = [] := by
    rw [List.filter_eq_nil_iff]
    intro row hrow
    simp [fresh row hrow]
  have hrows : rows.filter (m.sharesKey rows) = rows := by
    rw [List.filter_eq_self]
    intro row hrow
    refine List.any_eq_true.2 ⟨row, hrow, ?_⟩
    rw [keyed row hrow, Json.looseEq_refl]
    rfl
  rw [List.filter_append, hold, hrows, List.nil_append]

theorem Store.seen_seed {s u : Store} {m : Model} {rows : List Json}
    (hu : u.rows = (s.seed m.table rows).rows) (visible : ∀ row ∈ rows, m.sees row = true) :
    u.seen m = s.seen m ++ rows := by
  have hrows : rows.filter m.sees = rows := List.filter_eq_self.2 visible
  rw [seen, hu, seed, rows_put_self, List.filter_append, hrows, seen]

/-- Either all rows have keys, or none has. -/
def Model.Alike (m : Model) (rows : List Json) : Prop :=
  (∀ row ∈ rows, (m.keyOf row).isNull = false) ∨ ∀ row ∈ rows, (m.keyOf row).isNull = true

namespace Task

section
variable {world : World} {registry : Registry} {settings : Settings} {m : Model} {action : String}
  {s u : Store} (hm : registry.models.get? m.name = some m) (plain : Path.Plain m.primaryKey)
include hm plain

/-- A new row is found when it is read again. -/
theorem runFrom_read_new_row {row : Row} (hrequest : isRequest m (.obj row) = false)
    (hu : u.seen m = s.seen m ++ [.obj row])
    (fresh : ∀ old ∈ s.seen m, m.sharesKey [.obj row] old = false) :
    ((read (Store.context world registry settings m action) (.obj row)).runFrom u).1 =
      .ok (.obj row) := by
  cases hkey : (m.keyOf (.obj row)).isNull with
  | true => rw [read_keyless_row plain action hrequest hkey, Act.runFrom_pure]
  | false =>
    obtain ⟨t, hread⟩ := runFrom_read_row world settings hm plain action hrequest hkey u
    have hshares : (fun x => (m.keyOf x).looseEq (m.keyOf (.obj row))) =
        m.sharesKey [.obj row] := by
      funext x
      simp [Model.sharesKey, hkey]
    have hfound := Model.filter_sharesKey_append fresh (by simp [hkey])
    rw [hread, hshares, hu, hfound]
    rfl

/-- New rows are found when they are read again, if all of them have keys or none has. -/
theorem runFrom_read_new_rows {rows : List Json} (objects : ∀ row ∈ rows, row.isObject = true)
    (alike : m.Alike rows) (hu : u.seen m = s.seen m ++ rows)
    (fresh : ∀ old ∈ s.seen m, m.sharesKey rows old = false) :
    ((read (Store.context world registry settings m action) (.arr rows)).runFrom u).1 =
      .ok (.arr rows) := by
  by_cases keyless : ∀ row ∈ rows, (m.keyOf row).isNull = true
  · rw [read_keyless_rows plain action objects keyless, Act.runFrom_pure]
  · have keyed := alike.resolve_right keyless
    have hsome : ∃ row ∈ rows, (m.keyOf row).isNull = false := by simpa using keyless
    obtain ⟨t, hread⟩ := runFrom_read_rows world settings hm plain action objects hsome u
    rw [hread, hu, Model.filter_sharesKey_append fresh keyed]

end

theorem read_request_eq_ok {ctx : Context Store} {payload output : Json} {u t : Store}
    (hrequest : isRequest ctx.model payload = true)
    (h : (read ctx payload).runFrom u = (.ok output, t)) :
    ∃ request found, Request.ofJson payload = .ok request ∧
      (Query.select ctx.toEngine ctx.model.name
        { request with pagination := some { page := some 1, perPage := some 1 } }).runFrom u =
          (.ok found, t) ∧
      output = firstOf found.result := by
  cases hofJson : Request.ofJson payload with
  | error e =>
    unfold read at h
    dsimp only at h
    rw [if_pos hrequest, hofJson] at h
    cases h
  | ok request =>
    rw [read_of_isRequest hrequest hofJson] at h
    obtain ⟨found, u₁, hselect, h⟩ := Act.runFrom_bind_eq_ok.1 h
    cases h
    exact ⟨request, found, rfl, hselect, rfl⟩

end Task

namespace Runner

/-- A create that succeeds took its steps. -/
theorem steps_of_create {world : World} {registry : Registry} {settings : Settings}
    {patience : Nat} {name : String} {m : Model} (hm : registry.models.get? name = some m)
    {input output : Json} {s t : Store}
    (created : ((Store.runner world registry settings patience).execute name "create"
      input).runFrom s = (.ok output, t)) :
    (Steps.create (Store.context world registry settings m "create") input).runFrom s =
      (.ok output, t) := by
  obtain ⟨_, checked, -, accepted⟩ := accepted_of_execute created
  obtain rfl : input = checked := by
    obtain ⟨_, -, h⟩ := bind_eq_ok.1 accepted
    exact Except.ok.inj h
  rwa [runFrom_execute_create _ rfl hm accepted] at created

/-- A create writes the rows that it makes of its input at the end of the table. It answers with
these rows if it reads them again by new keys, or if they have no keys. Where the row that it wrote
is taken for a request, it answers with the first row that the request finds. -/
theorem execute_create {world : World} {patience : Nat} {settings : Settings}
    {specs : List ModelSpec} {registry : Registry} (loaded : Registry.ofSpecs specs = .ok registry)
    {name : String} {m : Model} (hm : registry.models.get? name = some m)
    (plain : Path.Plain m.primaryKey) {s t : Store} {input output : Json}
    (created : ((Store.runner world registry settings patience).execute name "create"
      input).runFrom s = (.ok output, t)) :
    ∃ payload, Task.Reworks (m.Makes world) input payload ∧
      t.rows = (s.seed m.table (Task.rowsOf payload)).rows ∧
      ((m.schema = [] → input.get? "filters" = none) →
        (∀ row ∈ Task.rowsOf payload, m.sees row = true) → m.Alike (Task.rowsOf payload) →
        (∀ row ∈ s.seen m, m.sharesKey (Task.rowsOf payload) row = false) → output = payload) ∧
      (m.schema = [] → input.get? "filters" ≠ none →
        ∃ request found u, Request.ofJson payload = .ok request ∧ u.rows = t.rows ∧
          (Query.select (Store.engine world registry settings) m.name
            { request with pagination := some { page := some 1, perPage := some 1 } }).runFrom u =
              (.ok found, t) ∧
          output = Task.firstOf found.result) := by
  have hm' := Registry.get?_name_of_ofSpecs loaded hm
  obtain ⟨payload, u, hmade, hu, hread⟩ := Steps.create_eq_ok (steps_of_create hm created)
  have hrequest := Task.isRequest_of_makes hmade
  have ht : t.rows = u.rows := (Task.read_readsOnly payload).rows_eq hread
  refine ⟨payload, hmade, ht.trans hu, fun hplain visible alike fresh => ?_, fun hschema hget => ?_⟩
  · have hrow : Task.isRequest m payload = false := by
      rw [hrequest]
      cases hschema : m.schema with
      | nil => simp [hplain hschema]
      | cons e rest => rfl
    have hseen := Store.seen_seed hu visible
    have objects : ∀ row ∈ Task.rowsOf payload, row.isObject = true := by
      intro item hitem
      obtain ⟨_, row, -, rfl, -⟩ := hmade.exists_of_mem hitem
      rfl
    have hanswer : ((Task.read (Store.context world registry settings m "create")
        payload).runFrom u).1 = .ok payload := by
      cases hmade with
      | row => exact Task.runFrom_read_new_row hm' plain hrow hseen fresh
      | rows => exact Task.runFrom_read_new_rows hm' plain objects alike hseen fresh
    rw [hread] at hanswer
    exact Except.ok.inj hanswer
  · -- the row that was written comes back as a request, so the answer is what the request finds
    have hrow : Task.isRequest m payload = true := by
      rw [hrequest, hschema]
      simpa [Option.isSome_iff_ne_none] using hget
    obtain ⟨request, found, hofJson, hselect, rfl⟩ := Task.read_request_eq_ok hrow hread
    exact ⟨request, found, u, hofJson, ht.symm, hselect, rfl⟩

end Runner

/-! ## An example: tickets with keys and times of their own -/

namespace Tickets

def schema : Members AttributeType := [("id", .uuid), ("title", .string)]

def spec : ModelSpec where
  name := "ticket"
  schema
  config := ⟨some "id", some "tickets", none, true, true, some "ticket", some "tickets"⟩

def model : Model :=
  ⟨"ticket", schema, ⟨"id", "tickets", none, true, true, "ticket", "tickets"⟩, [], [], [], []⟩

def registry : Registry := ⟨[("ticket", model)]⟩

theorem loaded : Registry.ofSpecs [spec] = .ok registry := by rfl

theorem plainKey : Path.Plain model.primaryKey := ⟨by decide, by decide⟩

def ticket (key title : String) : Json :=
  .obj [("created_at", .str Blog.world.now), ("id", .str key), ("title", .str title),
    ("updated_at", .str Blog.world.now)]

def store : Store :=
  { rows := fun table => if table = "tickets" then [ticket "a" "old"] else [] }

def create (input : Json) (s : Store) : Except Error Json × Store :=
  ((Store.runner Blog.world registry {} 0).execute "ticket" "create" input).runFrom s

/-- Two tickets without keys, one of them with a column that the schema does not have. -/
def input : Json :=
  .arr [.obj [("color", .str "red"), ("title", .str "new")], .obj [("title", .str "newer")]]

def newTickets : List Json := [ticket "0" "new", ticket "1" "newer"]

theorem rows_create :
    (create input store).2.rows "tickets" = ticket "a" "old" :: newTickets := by cbv

theorem create_newTickets :
    Registry.ofSpecs [spec] = .ok registry ∧ Path.Plain model.primaryKey ∧
      (create input store).1 = .ok (.arr newTickets) := by
  have hm : registry.models.get? "ticket" = some model := rfl
  have hok : (create input store).1.isOk = true := by cbv
  have hrows := rows_create
  refine ⟨loaded, plainKey, ?_⟩
  generalize hrun : create input store = answer at hok hrows ⊢
  obtain ⟨_ | output, t⟩ := answer
  · cases hok
  · obtain ⟨payload, hmade, ht, hanswer, -⟩ := Runner.execute_create loaded hm plainKey hrun
    have hpayload : Task.rowsOf payload = newTickets := by
      have hseed := (congrFun ht "tickets").symm.trans hrows
      have htable : (store.seed "tickets" (Task.rowsOf payload)).rows "tickets" =
          [ticket "a" "old"] ++ Task.rowsOf payload := Store.rows_put_self ..
      exact List.append_cancel_left (htable.symm.trans hseed)
    rw [hpayload] at hanswer
    have hvisible : ∀ row ∈ newTickets, model.sees row = true := by decide +kernel
    have hkeyed : ∀ row ∈ newTickets, (model.keyOf row).isNull = false := by decide +kernel
    have hfresh : ∀ old ∈ store.seen model, model.sharesKey newTickets old = false := by
      decide +kernel
    have hschema : model.schema ≠ [] := by simp [model, schema]
    obtain rfl := hanswer (fun hnil => absurd hnil hschema) hvisible (.inl hkeyed) hfresh
    cases hmade with
    | rows => exact congrArg (fun rows => Except.ok (Json.arr rows)) hpayload

end Tickets

/-! ## Notes that are not read again as they are -/

namespace Notes

def note : Model :=
  ⟨"note", [], ⟨"id", "notes", none, false, false, "note", "notes"⟩, [], [], [], []⟩

def oldNote : Json := .obj [("id", .str "c")]

def oldNotes : Store := { rows := fun table => if table = "notes" then [oldNote] else [] }

def create (input : Json) : Except Error Json × Store :=
  ((Store.runner Blog.world (registry "id") {} 0).execute "note" "create" input).runFrom oldNotes

/-- A note that looks like a request for another one. -/
def asRequest : Json := .obj [("filters", .obj [("id", .str "b")]), ("id", .str "a")]

def keyedNote : Json := .obj [("id", .str "a")]

def keylessNote : Json := .obj [("id", .null)]

/-- A note is written, but the note is read that it seems to ask for. Of notes with and without keys,
all are written, but only those with keys are read. -/
theorem create_answers_otherwise :
    Registry.ofSpecs [spec "id"] = .ok (registry "id") ∧
    (registry "id").models.get? "note" = some note ∧ Path.Plain note.primaryKey ∧
    note.sharesKey [asRequest] oldNote = false ∧
    (create asRequest).2.rows "notes" = [oldNote, asRequest] ∧
    (create asRequest).1 = .ok .null ∧
    note.sharesKey [keyedNote, keylessNote] oldNote = false ∧
    (create (.arr [keyedNote, keylessNote])).2.rows "notes" = [oldNote, keyedNote, keylessNote] ∧
    (create (.arr [keyedNote, keylessNote])).1 = .ok (.arr [keyedNote]) := by
  refine ⟨loaded "id", rfl, ⟨by decide, by decide⟩, ?_⟩
  exact ⟨by decide +kernel, by cbv, by cbv, by decide +kernel, by cbv, by cbv⟩

end Notes
end ModelActions
