import ModelActions.Task.Basic

/-!
# Payload tasks

Tasks that prepare the rows of a payload or shape a result. A payload is one row or a list of rows.
-/
namespace ModelActions.Task
variable {σ : Type}

def rowPlace (i : Nat) : String := "rows[" ++ toString i ++ "]"

/-- Changes the rows of a list, each with its position. -/
def mapItems {m : Type → Type} [Monad m] [MonadExceptOf Error m] (f : Option Nat → Row → m Row)
    (i : Nat) : List Json → m (List Json)
  | [] => pure []
  | .obj row :: rows => do
    let row' ← f (some i) row
    let rows' ← mapItems f (i + 1) rows
    return .obj row' :: rows'
  | _ :: _ => throw (.invalid (rowPlace i) .rowNotObject)

/-- Changes the row of a payload, or each of its rows. -/
def mapRows {m : Type → Type} [Monad m] [MonadExceptOf Error m] (f : Option Nat → Row → m Row) :
    Json → m Json
  | .obj row => do return .obj (← f none row)
  | .arr rows => do return .arr (← mapItems f 0 rows)
  | _ => throw (.invalid "payload" .payloadNotObjects)

/-- Drops columns that the schema does not have; without a schema everything stays. -/
def clean (schema : Members AttributeType) (input : Json) : Except Error Json :=
  if schema.isEmpty then .ok input
  else mapRows (fun _ row => return row.filter fun e => schema.has e.1) input

/-- Checks that values have the types of a schema; the first that has not is reported. -/
def checkTypes (schema : Members AttributeType) (place : String) : Row → Except Error Unit
  | [] => .ok ()
  | (column, value) :: row =>
    match schema.get? column with
    | some type =>
      if type.accepts value then checkTypes schema place row
      else .error (.invalid (place ++ column) (.typeExpected type.name))
    | none => checkTypes schema place row

/-- Checks the rows of a create and the data of an update against a schema. -/
def validate (schema : Members AttributeType) (action : String) (input : Json) :
    Except Error Json :=
  match action with
  | "create" =>
    mapRows (fun i row => do
      checkTypes schema ((i.map fun i => rowPlace i ++ ".").getD "") row
      return row) input
  | "update" =>
    match input.get? "data" with
    | some (.obj data) => do
      checkTypes schema "data." data
      return input
    | _ => .ok input
  | _ => .ok input

/-- Whether a row gets a key: the key is a UUID by the schema and the row has none. -/
def needsKey (m : Model) (row : Row) : Bool :=
  m.schema.get? m.primaryKey == some .uuid && ((row.get? m.primaryKey).getD .null).isNull

/-- Writes the time of creation, unless it is there, and the time of change. -/
def stamp (now : Option String) (row : Row) : Row :=
  match now with
  | some t => (row.insertNew "created_at" (.str t)).insert "updated_at" (.str t)
  | none => row

def currentTime (ctx : Context σ) : Act σ (Option String) :=
  if ctx.model.config.timestamps then some <$> ctx.host.readClock else pure none

/-- Gives rows the keys that they lack and the times of a model with timestamps. -/
def generate (ctx : Context σ) (input : Json) : Act σ Json := do
  let now ← currentTime ctx
  mapRows (fun _ row => do
    if needsKey ctx.model row then
      let key ← ctx.host.drawKey
      return stamp now (row.insert ctx.model.primaryKey (.str key))
    else return stamp now row) input

def wrap (data : Json) : Json := .obj [("data", data)]

/-- A selection as callers see it: its rows, and where they stand in the whole. -/
def summarize (s : Selection) : Json :=
  let pagination := s.operation.pagination
  .obj [("data", .arr s.result),
    ("meta", .obj [
      ("count", .ofNat s.result.length),
      ("page", .ofOption .ofNat (pagination.bind (·.page))),
      ("per_page", .ofOption (fun p => .ofNat p.perPage) pagination),
      ("total", .ofNat (s.total.getD s.result.length))])]

def summarizeJson (input : Json) : Except Error Json :=
  match Selection.ofJson? input with
  | some s => .ok (summarize s)
  | none => .error (.invalid "result" .malformed)

end ModelActions.Task
