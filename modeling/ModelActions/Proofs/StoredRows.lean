import ModelActions.Proofs.CreatedRows
import ModelActions.Proofs.RectangularInserts

/-!
# Stored rows

What a create leaves behind: at the end of the table of the model the rows that it was given, each
with the columns that the schema has, with a key where the schema wants one generated, and with
times. It sends one insert, and selects only after it.
-/
namespace ModelActions

/-- Whether a create keeps the values of a column. -/
def Model.keeps (m : Model) (column : String) : Bool := m.schema.isEmpty || m.schema.has column

/-- What a row has in a column before a create writes its times: a new key, or what it was given. -/
def Model.given (m : Model) (key : String) (row : Row) (column : String) : Option Json :=
  if column = m.primaryKey ∧ Task.needsKey m row then some (.str key)
  else if m.keeps column then row.get? column
  else none

/-- What a create stores of a row in a column, where `key` is the next key that is given out. The
time of creation stays if it is there, the time of change does not. -/
def Model.stored (m : Model) (world : World) (key : String) (row : Row) (column : String) :
    Option Json :=
  if m.config.timestamps then
    if column = "updated_at" then some (.str world.now)
    else if column = "created_at" then (m.given key row column).or (some (.str world.now))
    else m.given key row column
  else m.given key row column

/-- A row as a create stores it. -/
structure Model.Stores (m : Model) (world : World) (key : String) (row row' : Row) : Prop where
  columns : ∀ column, row'.get? column = m.stored world key row column
  sorted : Members.Sorted row → Members.Sorted row'

/-- Rows as a create stores them, in their order. Keys are given out from the `k`th on, to the rows
that need one. -/
inductive Model.StoresRows (m : Model) (world : World) : Nat → List Row → List Row → Prop
  | nil {k : Nat} : StoresRows m world k [] []
  | cons {k : Nat} {row row' : Row} {rows rows' : List Row}
      (first : m.Stores world (world.key k) row row')
      (rest : StoresRows m world (if Task.needsKey m row then k + 1 else k) rows rows') :
      StoresRows m world k (row :: rows) (row' :: rows')

section
variable {m : Model}

theorem Model.get?_cleaned (row : Row) (column : String) :
    (m.cleaned row).get? column = if m.keeps column then row.get? column else none := by
  unfold cleaned keeps
  cases hschema : m.schema.isEmpty with
  | true => rfl
  | false =>
    cases hlisted : m.schema.has column with
    | true => exact Members.get?_filter row m.schema.has hlisted
    | false =>
      refine Option.eq_none_iff_forall_ne_some.2 fun value hvalue => ?_
      have hkept := (List.mem_filter.1 (Members.mem_of_get? hvalue)).2
      rw [hlisted] at hkept
      cases hkept

/-- Cleaning changes nothing about whether a row needs a key. -/
theorem Task.needsKey_cleaned (row : Row) : needsKey m (m.cleaned row) = needsKey m row := by
  unfold needsKey
  cases htype : m.schema.get? m.primaryKey with
  | none => rfl
  | some type =>
    have hkeeps : m.keeps m.primaryKey = true := by simp [Model.keeps, Members.has, htype]
    rw [Model.get?_cleaned, if_pos hkeeps]

theorem Task.sorted_stamp (now : Option String) {row : Row} (h : Members.Sorted row) :
    Members.Sorted (stamp now row) := by
  cases now with
  | none => exact h
  | some t => exact (h.insertNew _ _).insert _ _

theorem Model.sorted_cleaned {row : Row} (h : Members.Sorted row) :
    Members.Sorted (m.cleaned row) := by
  unfold cleaned
  split
  · exact h
  · exact h.filter _

theorem Model.stores_fill (world : World) (key : String) (row : Row) :
    m.Stores world key row (Task.fill m (m.timeAt world) key (m.cleaned row)) := by
  -- the row before its times are written
  let keyed := if Task.needsKey m (m.cleaned row)
    then (m.cleaned row).insert m.primaryKey (.str key) else m.cleaned row
  have hgiven (column : String) : Members.get? keyed column = m.given key row column := by
    unfold keyed given
    rw [Task.needsKey_cleaned]
    cases Task.needsKey m row with
    | true => simp [Members.get?_insert, get?_cleaned]
    | false => simp [get?_cleaned]
  have hkeyed (hrow : Members.Sorted row) : Members.Sorted keyed := by
    unfold keyed
    split
    · exact (m.sorted_cleaned hrow).insert _ _
    · exact m.sorted_cleaned hrow
  constructor
  · intro column
    change (Task.stamp (m.timeAt world) keyed).get? column = m.stored world key row column
    unfold timeAt stored
    rw [← hgiven]
    cases m.config.timestamps with
    | false => rfl
    | true => exact Task.get?_stamp_some world.now keyed column
  · exact fun hrow => Task.sorted_stamp _ (hkeyed hrow)

end

/-- What a computation sends to a store is logged. -/
theorem Act.Sends.log {α : Type} {world : World} {P : Operation → Prop} {x : Act Store α}
    {Q : α → Prop} (h : Sends (Store.host world) P x Q) (s : Store) :
    ∃ sent, (x.runFrom s).2.log = s.log ++ sent ∧ ∀ op ∈ sent, P op := by
  have keeps : (Store.host world).Keeps P fun t =>
      ∃ sent, t.log = s.log ++ sent ∧ ∀ op ∈ sent, P op := by
    constructor
    · rintro op t hop ⟨sent, hlog, hsent⟩
      refine ⟨sent ++ [op], ?_, ?_⟩
      · rw [← List.append_assoc, ← hlog]
        exact Store.log_execute world op t
      · intro op' hop'
        rcases List.mem_append.1 hop' with hold | hnew
        · exact hsent op' hold
        · rwa [List.mem_singleton.1 hnew]
    · exact id
    · exact id
  exact h.keeps keeps ⟨[], by simp, by simp⟩

namespace Task
variable {world : World} {registry : Registry} {settings : Settings} {m : Model} {action : String}

/-- A row that needs a key takes the next one of the store. -/
theorem runFrom_generateRow (world : World) (m : Model) (now : Option String) (row : Row)
    (s : Store) :
    (if needsKey m row then do
        let key ← (Store.host world).drawKey
        return stamp now (row.insert m.primaryKey (.str key))
      else return stamp now row : Act Store Row).runFrom s =
      (.ok (fill m now (world.key s.keysDrawn) row),
        { s with keysDrawn := if needsKey m row then s.keysDrawn + 1 else s.keysDrawn }) := by
  unfold fill
  cases needsKey m row <;> rfl

/-- Rows that were cleaned are stored as they should be, if one row after the other is filled in. -/
theorem runFrom_mapItems_cleaned {f : Option Nat → Row → Act Store Row}
    (hf : ∀ i row s, (f i row).runFrom s =
      (.ok (fill m (m.timeAt world) (world.key s.keysDrawn) row),
        { s with keysDrawn := if needsKey m row then s.keysDrawn + 1 else s.keysDrawn }))
    (i : Nat) (given : List Row) (s : Store) :
    ∃ rows k, (mapItems f i (given.map fun row => .obj (m.cleaned row))).runFrom s =
        (.ok (rows.map .obj), { s with keysDrawn := k }) ∧
      m.StoresRows world s.keysDrawn given rows := by
  induction given generalizing i s with
  | nil => exact ⟨[], s.keysDrawn, rfl, .nil⟩
  | cons row given ih =>
    obtain ⟨rows, k, hrows, hstores⟩ := ih (i + 1)
      { s with keysDrawn := if needsKey m row then s.keysDrawn + 1 else s.keysDrawn }
    have hrow := hf (some i) (m.cleaned row) s
    rw [needsKey_cleaned] at hrow
    refine ⟨_ :: rows, k, ?_, .cons (m.stores_fill world _ row) hstores⟩
    refine (Act.runFrom_bind_ok hrow).trans ?_
    exact Act.runFrom_bind_ok hrows

theorem exists_map_of_related {f : Row → Row} {items items' : List Json}
    (h : List.Forall₂ (Related fun row row' => row' = f row) items items') :
    ∃ given : List Row, items = given.map .obj ∧ items' = given.map fun row => .obj (f row) := by
  induction h with
  | nil => exact ⟨[], rfl, rfl⟩
  | cons hitem _ ih =>
    obtain ⟨row, _, rfl, rfl, rfl⟩ := hitem
    obtain ⟨given, rfl, rfl⟩ := ih
    exact ⟨row :: given, rfl, rfl⟩

/-- Generating on rows that were cleaned makes the rows to be stored, and draws keys only. -/
theorem generate_stores {input cleaned output : Json} {s t : Store}
    (hcleaned : Reworks (fun row row' => row' = m.cleaned row) input cleaned)
    (h : (generate (Store.context world registry settings m action) cleaned).runFrom s =
      (.ok output, t)) :
    ∃ given rows k, rowsOf input = given.map .obj ∧ rowsOf output = rows.map .obj ∧
      m.StoresRows world s.keysDrawn given rows ∧ t = { s with keysDrawn := k } := by
  rw [generate, Act.runFrom_bind_ok (runFrom_currentTime s)] at h
  have hrow := runFrom_generateRow world m (m.timeAt world)
  cases hcleaned with
  | row hclean =>
    rename_i row row'
    subst hclean
    have hkeyed := hrow (m.cleaned row) s
    have hrun := (Act.runFrom_bind_ok hkeyed).symm.trans h
    cases hrun
    exact ⟨[row], [_], _, rfl, rfl, .cons (m.stores_fill world _ row) .nil, rfl⟩
  | rows hclean =>
    obtain ⟨given, rfl, rfl⟩ := exists_map_of_related hclean
    obtain ⟨rows, k, hrows, hstores⟩ := runFrom_mapItems_cleaned (fun _ => hrow) 0 given s
    have hrun := (Act.runFrom_bind_ok hrows).symm.trans h
    cases hrun
    exact ⟨given, rows, k, rfl, rfl, hstores, rfl⟩

end Task

/-- The rows of a list that is inserted have the same columns. -/
theorem Insert.sameColumns_of_make {table model : String} {first : Row} {rest : List Row}
    {op : Insert} (h : Insert.make table model (.rows (first :: rest)) = .ok op) :
    ∀ row ∈ rest, Row.sameColumns row first = true := by
  have hnone : Row.firstUnlike first 1 rest = none := by
    cases hunlike : Row.firstUnlike first 1 rest with
    | none => rfl
    | some i => simp [Insert.make, hunlike] at h
  exact Row.firstUnlike_eq_none_iff.1 hnone

theorem Row.keys_eq_of_sameColumns {row first : Row} (h : Row.sameColumns row first = true)
    (hrow : Members.Sorted row) (hfirst : Members.Sorted first) : row.keys = first.keys := by
  obtain ⟨hlength, hsub⟩ := Bool.and_eq_true_iff.1 h
  refine hrow.keys_eq hfirst (beq_iff_eq.1 hlength) fun column hcolumn => ?_
  exact (Members.has_iff_mem_keys first column).1 (List.all_eq_true.1 hsub column hcolumn)

/-- Rows that were inserted have the same columns in the same order. -/
theorem Insert.keys_eq_of_make {table model : String} {payload : Payload} {op : Insert}
    (h : Insert.make table model payload = .ok op)
    (sorted : ∀ row ∈ payload.toList, Members.Sorted row) {row row' : Row}
    (hrow : row ∈ payload.toList) (hrow' : row' ∈ payload.toList) : row.keys = row'.keys := by
  cases payload with
  | row only =>
    obtain rfl := List.mem_singleton.1 hrow
    obtain rfl := List.mem_singleton.1 hrow'
    rfl
  | rows rows =>
    cases rows with
    | nil => cases hrow
    | cons first rest =>
      have hfirst : ∀ row ∈ first :: rest, row.keys = first.keys := by
        intro row hrow
        rcases List.mem_cons.1 hrow with rfl | hrest
        · rfl
        · exact Row.keys_eq_of_sameColumns (sameColumns_of_make h row hrest) (sorted row hrow)
            (sorted first List.mem_cons_self)
      exact (hfirst row hrow).trans (hfirst row' hrow').symm

theorem Model.StoresRows.sorted {m : Model} {world : World} {k : Nat} {given rows : List Row}
    (h : m.StoresRows world k given rows) (sorted : ∀ row ∈ given, Members.Sorted row) :
    ∀ row ∈ rows, Members.Sorted row := by
  induction h with
  | nil => simp
  | cons first rest ih =>
    obtain ⟨hrow, hrows⟩ := List.forall_mem_cons.1 sorted
    exact List.forall_mem_cons.2 ⟨first.sorted hrow, ih hrows⟩

/-- What a create leaves behind that stored `payload` for the rows `given`, and then sent `reads`.
The members of a JSON object are sorted, so rows with the same columns list them in one order. -/
structure Model.Created (m : Model) (world : World) (s t : Store) (given : List Row)
    (payload : Payload) (reads : List Operation) : Prop where
  stores : m.StoresRows world s.keysDrawn given payload.toList
  table : t.rows m.table = s.rows m.table ++ payload.toList.map .obj
  others : ∀ table ≠ m.table, t.rows table = s.rows table
  columns : (∀ row ∈ given, Members.Sorted row) →
    ∀ row ∈ payload.toList, ∀ row' ∈ payload.toList, row.keys = row'.keys
  log : t.log = s.log ++ .insert ⟨m.table, m.name, payload⟩ :: reads
  selects : ∀ op ∈ reads, ∃ select, op = .select select

theorem Steps.prepare_stores {world : World} {registry : Registry} {settings : Settings}
    {m : Model} {input output : Json} {s t : Store}
    (h : (prepare (Store.context world registry settings m "create") input).runFrom s =
      (.ok output, t)) :
    ∃ given rows k, Task.rowsOf input = given.map .obj ∧ Task.rowsOf output = rows.map .obj ∧
      m.StoresRows world s.keysDrawn given rows ∧ t = { s with keysDrawn := k } := by
  obtain ⟨cleaned, s₁, hclean, h⟩ := Act.runFrom_bind_eq_ok.1 h
  obtain ⟨checked, s₂, hchecked, h⟩ := Act.runFrom_bind_eq_ok.1 h
  rw [Act.runFrom_ofExcept, Prod.mk.injEq] at hclean hchecked
  obtain ⟨hclean, rfl⟩ := hclean
  obtain ⟨hchecked, rfl⟩ := hchecked
  have hvalid := Task.validate_create_eq_ok hclean hchecked
  exact Task.generate_stores (hvalid.mono And.left) h

namespace Runner
variable {world : World} {registry : Registry} {settings : Settings} {patience : Nat}
  {name : String} {m : Model} {input output : Json} {s t : Store}

/-- A create that succeeds has stored the rows of its input at the end of the table, prepared as the
model says and all with the same columns. It has changed no other table, and has sent one insert and
then selects only. -/
theorem execute_create_stores (hm : registry.models.get? name = some m)
    (created : ((Store.runner world registry settings patience).execute name "create"
      input).runFrom s = (.ok output, t)) :
    ∃ given payload reads, Task.rowsOf input = given.map .obj ∧
      m.Created world s t given payload reads := by
  obtain ⟨prepared, s₁, hprepare, h⟩ := Act.runFrom_bind_eq_ok.1 (steps_of_create hm created)
  obtain ⟨inserted, u, hinsert, hread⟩ := Act.runFrom_bind_eq_ok.1 h
  obtain ⟨given, rows, k, hgiven, hrows, hstores, rfl⟩ := Steps.prepare_stores hprepare
  obtain ⟨payload, hpayload, hmake, -, rfl⟩ := Task.insert_eq_ok hinsert
  -- the payload of the insert holds the rows that were prepared
  obtain rfl : payload.toList = rows := by
    have hlist : payload.toList.map Json.obj = rows.map .obj :=
      (Task.payloadOf_eq_ok hpayload).1.trans hrows
    exact List.map_injective_iff.2 (fun _ _ h => Json.obj.inj h) hlist
  let ctx := Store.context world registry settings m "create"
  obtain ⟨reads, hlog, hreads⟩ := (Task.read_sends ctx inserted).log
    (Store.execute world (.insert ⟨m.table, m.name, payload⟩) { s with keysDrawn := k }).2
  have hrows := (Task.read_readsOnly inserted).rows_eq hread
  rw [hread] at hlog
  refine ⟨given, payload, reads, hgiven, hstores, ?_, ?_, ?_, ?_, ?_⟩
  · rw [hrows]
    exact Store.rows_put_self ..
  · intro table htable
    rw [hrows]
    exact Store.rows_put_of_ne _ _ htable
  · exact fun sorted row hrow row' hrow' =>
      Insert.keys_eq_of_make hmake (hstores.sorted sorted) hrow hrow'
  · rw [hlog, Store.log_execute, List.append_assoc]
    rfl
  · intro op hop
    obtain ⟨_⟩ := hreads op hop
    exact ⟨_, rfl⟩

end Runner

namespace Tickets

theorem created_newTickets :
    registry.models.get? "ticket" = some model ∧ (create input store).1.isOk = true ∧
      ∃ given payload reads, Task.rowsOf input = given.map .obj ∧
        model.Created Blog.world store (create input store).2 given payload reads := by
  have hok : (create input store).1.isOk = true := by cbv
  refine ⟨rfl, hok, ?_⟩
  generalize hrun : create input store = answer at hok ⊢
  obtain ⟨_ | output, t⟩ := answer
  · cases hok
  · exact Runner.execute_create_stores rfl hrun

end Tickets
end ModelActions
