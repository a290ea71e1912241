import ModelActions.Task.Payload

/-!
# Data tasks

Tasks that read or write the table of the model, each with one operation besides the selects that
filters and expand paths need.
-/
namespace ModelActions.Task
variable {σ : Type}

def asRow (place : String) : Json → Except Error Row
  | .obj row => .ok row
  | _ => .error (.invalid place .objectExpected)

def asRows (i : Nat) : List Json → Except Error (List Row)
  | [] => .ok []
  | j :: js => do
    let row ← asRow (rowPlace i) j
    return row :: (← asRows (i + 1) js)

/-- The rows of a payload as an insert takes them. -/
def payloadOf : Json → Except Error Payload
  | .obj row => .ok (.row row)
  | .arr rows => do return .rows (← asRows 0 rows)
  | _ => .error (.invalid "payload" .payloadNotRows)

def firstOf (rows : List Json) : Json := rows.headD .null

/-- Inserts one row or several, and answers with as many. -/
def insert (ctx : Context σ) (input : Json) : Act σ Json := do
  let payload ← Act.ofExcept (payloadOf input)
  let op ← Act.ofExcept (Insert.make ctx.model.table ctx.model.name payload)
  let answer ← ctx.host.perform (.insert op)
  return if input.isObject then firstOf answer.toRows else .arr answer.toRows

/-- Whether the input of a read is a request, not rows to be read again. -/
def isRequest (m : Model) (input : Json) : Bool :=
  (input.get? "filters").isSome && !m.schema.has "filters"

/-- The request for the rows whose keys satisfy a leaf. -/
def keyRequest (leaf : Condition) : Request :=
  { filters := (FilterGroup.and [.condition leaf]).toJson, purpose := some "read" }

def keysIn (m : Model) (rows : List Json) : List Json :=
  (rows.filterMap (·.get? m.primaryKey)).filter (!·.isNull)

/-- Reads the first row that a request finds, or reads rows again by their keys. Rows without a key
are given back as they are. -/
def read (ctx : Context σ) (input : Json) : Act σ Json := do
  let m := ctx.model
  if isRequest m input then
    let request ← Act.ofExcept (Request.ofJson input)
    let first : PageRequest := { page := some 1, perPage := some 1 }
    let found ← Query.select ctx.toEngine m.name { request with pagination := some first }
    return firstOf found.result
  else match input with
    | .obj row =>
      match Members.get? row m.primaryKey with
      | none | some .null => return input
      | some key =>
        let found ← Query.select ctx.toEngine m.name (keyRequest ⟨m.primaryKey, .eq, key⟩)
        return firstOf found.result
    | .arr rows =>
      let keys := keysIn m rows
      if keys.isEmpty then return input
      else
        let found ← Query.select ctx.toEngine m.name (keyRequest ⟨m.primaryKey, .in, .arr keys⟩)
        return .arr found.result
    | .null => return .null
    | _ => throw (.invalid "payload" .rowsExpected)

/-- Answers a request; where pages are wanted and the request names none, it gets the first. -/
def select (paged : Bool) (ctx : Context σ) (input : Json) : Act σ Json := do
  let request ← Act.ofExcept (Request.ofJson input)
  let pagination := if paged then request.pagination.or (some {}) else request.pagination
  let found ← Query.select ctx.toEngine ctx.model.name { request with pagination }
  return found.toJson

/-- The filter under a key, which has to be there. -/
def filterUnder (ctx : Context σ) (key : String) (input : Json) : Except Error FilterGroup := do
  match ← Filter.parse ((input.get? key).getD .null) with
  | some g => return g
  | none => .error (.invalid key (.required ctx.action key))

def update (ctx : Context σ) (input : Json) : Act σ Json := do
  let m := ctx.model
  let data ← Act.ofExcept (asRow "data" ((input.get? "data").getD .null))
  let now ← currentTime ctx
  let data := match now with
    | some t => data.insert "updated_at" (.str t)
    | none => data
  let g ← Act.ofExcept (filterUnder ctx "conditions" input)
  let conditions ← Pushdown.resolveGroup ctx.toEngine m g
  let answer ← ctx.host.perform (.update { table := m.table, model := m.name, data, conditions })
  return .arr answer.toRows

def delete (soft : Bool) (ctx : Context σ) (input : Json) : Act σ Json := do
  let m := ctx.model
  let g ← Act.ofExcept (filterUnder ctx "conditions" input)
  let conditions ← Pushdown.resolveGroup ctx.toEngine m g
  let answer ← ctx.host.perform (.delete { table := m.table, model := m.name, conditions, soft })
  return .arr answer.toRows

end ModelActions.Task
