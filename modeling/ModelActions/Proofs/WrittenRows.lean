import ModelActions.Proofs.AllOrNothing
import ModelActions.Proofs.MemberLaws
import ModelActions.Proofs.Visible

/-!
# Rows on their way into a table

Cleaning, validating and generating leave no row that a read would take for a request, and what is
written is what was handed on.
-/
namespace ModelActions

open Act (Sends)
open Operation (GuardedSelect)

theorem Insert.eq_of_make {table model : String} {payload : Payload} {op : Insert}
    (h : Insert.make table model payload = .ok op) : op = ⟨table, model, payload⟩ := by
  unfold Insert.make at h
  split at h
  · cases h
    rfl
  · cases h
  · split at h <;> cases h
    rfl

namespace Task
variable {m : Model}

theorem asRows_eq_ok {i : Nat} {items : List Json} {rows : List Row}
    (h : asRows i items = .ok rows) : rows.map .obj = items := by
  induction items generalizing i rows with
  | nil =>
    cases h
    rfl
  | cons item items ih =>
    obtain ⟨row, hrow, h⟩ := bind_eq_ok.1 h
    obtain ⟨rest, hrest, h⟩ := bind_eq_ok.1 h
    cases h
    cases item with
    | obj =>
      cases hrow
      rw [List.map_cons, ih hrest]
    | _ => cases hrow

/-- Validation hands on what it was given. -/
theorem validate_eq_ok {schema : Members AttributeType} {action : String} {input output : Json}
    (h : validate schema action input = .ok output) : output = input := by
  unfold validate at h
  split at h
  · refine (mapRows_eq_ok (fun i row row' hrow => ?_) h).eq
    obtain ⟨_, -, hrow⟩ := bind_eq_ok.1 hrow
    cases hrow
    rfl
  · split at h
    · obtain ⟨_, -, h⟩ := bind_eq_ok.1 h
      cases h
      rfl
    · cases h
      rfl
  · cases h
    rfl

theorem isRequest_eq_false {input : Json} :
    isRequest m input = false ↔ ∀ value, input.get? "filters" = some value →
      m.schema.has "filters" = true := by
  unfold isRequest
  cases input.get? "filters" <;> simp

theorem isRequest_of_isArray {input : Json} (h : input.isArray = true) :
    isRequest m input = false := by
  refine isRequest_eq_false.2 fun value hv => ?_
  cases input with
  | arr rows => cases hv
  | _ => cases h

/-- Cleaning drops columns that a schema does not have, row by row. -/
theorem clean_eq_ok {schema : Members AttributeType} {input output : Json}
    (h : clean schema input = .ok output) :
    (schema = [] ∧ output = input) ∨
      (schema ≠ [] ∧
        Reworks (fun row row' => row' = row.filter fun e => schema.has e.1) input output) := by
  unfold clean at h
  split at h
  · next hschema =>
    cases h
    exact .inl ⟨List.isEmpty_iff.1 hschema, rfl⟩
  · next hschema =>
    refine .inr ⟨by simpa using hschema, mapRows_eq_ok (fun i row row' hrow => ?_) h⟩
    cases hrow
    rfl

/-- Cleaning leaves no column `filters` that the schema does not have. -/
theorem clean_isRequest {input output : Json} (h : clean m.schema input = .ok output)
    (hinput : m.schema = [] → input.get? "filters" = none) : isRequest m output = false := by
  rcases clean_eq_ok h with ⟨hschema, rfl⟩ | ⟨-, hrows⟩
  · refine isRequest_eq_false.2 fun value hv => ?_
    rw [hinput hschema] at hv
    cases hv
  · cases hrows with
    | row hrow =>
      subst hrow
      refine isRequest_eq_false.2 fun value hv => ?_
      exact (List.mem_filter.1 (Members.mem_of_get? hv)).2
    | rows => exact isRequest_of_isArray rfl

/-- What is in a column once the times are written. -/
theorem get?_stamp_some (t : String) (row : Row) (column : String) :
    (stamp (some t) row).get? column =
      if column = "updated_at" then some (.str t)
      else if column = "created_at" then (row.get? column).or (some (.str t))
      else row.get? column := by
  rw [stamp, Members.get?_insert, Members.get?_insertNew]

theorem get?_stamp (now : Option String) (row : Row) {column : String}
    (hc : column ≠ "created_at") (hu : column ≠ "updated_at") :
    (stamp now row).get? column = row.get? column := by
  cases now with
  | none => rfl
  | some t => rw [get?_stamp_some, if_neg hu, if_neg hc]

/-- A key is generated only where the schema has an attribute for it. -/
theorem get?_fill {now : Option String} {key : String} {row : Row} {column : String}
    (hschema : m.schema.has column = false) (hc : column ≠ "created_at")
    (hu : column ≠ "updated_at") : (fill m now key row).get? column = row.get? column := by
  rw [fill, get?_stamp now _ hc hu]
  split
  · next hneeds =>
    refine Members.get?_insert_of_ne row _ ?_
    rintro rfl
    simp only [needsKey, Bool.and_eq_true, beq_iff_eq] at hneeds
    rw [Members.has, hneeds.1] at hschema
    cases hschema
  · rfl

/-- Generating makes no request of a row, nor a row of a request. -/
theorem isRequest_of_fill {now : Option String} {input output : Json}
    (h : Reworks (fun row row' => ∃ key, row' = fill m now key row) input output) :
    isRequest m output = isRequest m input := by
  cases h with
  | row h =>
    obtain ⟨key, rfl⟩ := h
    cases hschema : m.schema.has "filters" with
    | true => simp [isRequest, hschema]
    | false =>
      rw [isRequest, isRequest, Json.get?_obj, Json.get?_obj,
        get?_fill hschema (by decide) (by decide)]
  | rows => rfl

/-- Generated attributes are by the schema, or are not named `filters`. -/
theorem generate_sends_rows (P : Operation → Prop) {σ : Type} (ctx : Context σ) {input : Json}
    (hinput : isRequest ctx.model input = false) :
    Sends ctx.host P (generate ctx input) fun output => isRequest ctx.model output = false := by
  refine (generate_sends ctx P input).weaken fun output houtput => ?_
  obtain ⟨now, houtput⟩ := houtput
  rw [isRequest_of_fill houtput, hinput]

variable {world : World} {registry : Registry} {settings : Settings} {action : String}
  {input output : Json} {s t : Store}

/-- A payload holds the rows that it was made of. -/
theorem payloadOf_eq_ok {payload : Payload} (h : payloadOf input = .ok payload) :
    payload.toList.map .obj = rowsOf input ∧ (input.isObject = true ∨ input.isArray = true) := by
  cases input with
  | obj row =>
    cases h
    exact ⟨rfl, .inl rfl⟩
  | arr items =>
    obtain ⟨rows, hrows, h⟩ := bind_eq_ok.1 h
    cases h
    exact ⟨asRows_eq_ok hrows, .inr rfl⟩
  | _ => cases h

/-- What an insert was that succeeded. -/
theorem insert_eq_ok
    (h : (insert (Store.context world registry settings m action) input).runFrom s =
      (.ok output, t)) :
    ∃ payload, payloadOf input = .ok payload ∧
      Insert.make m.table m.name payload = .ok ⟨m.table, m.name, payload⟩ ∧
      output = (if input.isObject then firstOf (rowsOf input) else .arr (rowsOf input)) ∧
      t = (Store.execute world (.insert ⟨m.table, m.name, payload⟩) s).2 := by
  obtain ⟨payload, s₁, hpayload, h⟩ := Act.runFrom_bind_eq_ok.1 h
  obtain ⟨op, s₂, hop, h⟩ := Act.runFrom_bind_eq_ok.1 h
  obtain ⟨answer, s₃, hanswer, h⟩ := Act.runFrom_bind_eq_ok.1 h
  rw [Act.runFrom_ofExcept, Prod.mk.injEq] at hpayload hop
  obtain ⟨hpayload, rfl⟩ := hpayload
  obtain ⟨hop, rfl⟩ := hop
  obtain rfl := Insert.eq_of_make hop
  cases hanswer
  cases h
  rw [← (payloadOf_eq_ok hpayload).1]
  exact ⟨payload, hpayload, hop, rfl, rfl⟩

/-- An insert answers with what it was given, and puts its rows at the end of the table. -/
theorem insert_result
    (h : (insert (Store.context world registry settings m action) input).runFrom s =
      (.ok output, t)) :
    output = input ∧ (input.isObject = true ∨ input.isArray = true) ∧
      t.rows = (s.seed m.table (rowsOf input)).rows := by
  obtain ⟨payload, hpayload, -, rfl, rfl⟩ := insert_eq_ok h
  obtain ⟨hrows, hshape⟩ := payloadOf_eq_ok hpayload
  refine ⟨?_, hshape, ?_⟩
  · cases input with
    | obj | arr => rfl
    | _ => simp [Json.isObject, Json.isArray] at hshape
  · rw [← hrows]
    rfl

theorem update_result
    (h : (update (Store.context world registry settings m action) input).runFrom s =
      (.ok output, t)) : output.isArray = true := by
  obtain ⟨data, s₁, -, h⟩ := Act.runFrom_bind_eq_ok.1 h
  obtain ⟨now, s₂, -, h⟩ := Act.runFrom_bind_eq_ok.1 h
  obtain ⟨g, s₃, -, h⟩ := Act.runFrom_bind_eq_ok.1 h
  obtain ⟨conditions, s₄, -, h⟩ := Act.runFrom_bind_eq_ok.1 h
  obtain ⟨answer, s₅, -, h⟩ := Act.runFrom_bind_eq_ok.1 h
  cases h
  rfl

theorem insert_written
    (h : (insert (Store.context world registry settings m action) input).runFrom s =
      (.ok output, t)) : s.Written world (·.Stores m.table) t := by
  obtain ⟨payload, -, -, -, rfl⟩ := insert_eq_ok h
  exact ⟨.insert ⟨m.table, m.name, payload⟩, rfl, Store.rows_carryOut_congr world _ rfl⟩

theorem update_written
    (h : (update (Store.context world registry settings m action) input).runFrom s =
      (.ok output, t)) : s.Written world (·.Stores m.table) t := by
  obtain ⟨data, s₁, hdata, h⟩ := Act.runFrom_bind_eq_ok.1 h
  obtain ⟨now, s₂, hnow, h⟩ := Act.runFrom_bind_eq_ok.1 h
  obtain ⟨g, s₃, hg, h⟩ := Act.runFrom_bind_eq_ok.1 h
  obtain ⟨conditions, s₄, hconditions, h⟩ := Act.runFrom_bind_eq_ok.1 h
  obtain ⟨answer, s₅, hanswer, h⟩ := Act.runFrom_bind_eq_ok.1 h
  cases h
  rw [Act.runFrom_ofExcept, Prod.mk.injEq] at hdata hg
  obtain ⟨-, rfl⟩ := hdata
  obtain ⟨-, rfl⟩ := hg
  have hnowRows := currentTime_readsOnly.rows_eq hnow
  have hconditionsRows := (Pushdown.resolveGroup_readsOnly g).rows_eq hconditions
  have hwritten : s₄.Written world (·.Stores m.table) t := by
    refine .of_perform ?_ hanswer
    rfl
  exact hwritten.of_rows (hconditionsRows.trans hnowRows) rfl

end Task

end ModelActions
