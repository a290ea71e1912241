import ModelActions.Query.Pushdown

/-!
# Expansion of relationships

Expand paths say which related rows to attach to the rows of a result. Paths are grouped by their
first hop, and each hop is one select for the related rows of all rows at once; the rest of the
paths travels with that select, whose own result is expanded before it is attached.
-/
namespace ModelActions.Expansion
variable {σ : Type}

/-- Notes a path in a list of groups: a new group at the end, or a new rest in the group of its
head. -/
def addPath (head : String) (rest : Option String) :
    List (String × List String) → List (String × List String)
  | [] => [(head, rest.toList)]
  | (h, rests) :: groups =>
    if h = head then
      (h, match rest with
        | some r => if r ∈ rests then rests else rests ++ [r]
        | none => rests) :: groups
    else (h, rests) :: addPath head rest groups

/-- The first hops of some paths, each with the paths that follow it. -/
def groupByHead (paths : List String) : List (String × List String) :=
  paths.foldl (fun groups path => addPath (Path.head path) (Path.rest? path) groups) []

/-- The number of hops of the longest path. -/
def depth (paths : List String) : Nat := (paths.map Path.length).foldl max 0

def relatedSelect (related : Model) (r : Relationship) (keys : List Json) (rest : List String) :
    Select :=
  { table := related.table
    model := related.name
    purpose := some "expand"
    filters := related.guard (some (.leaf r.target .in (.arr keys)))
    expand := rest }

/-- Whether a related row belongs to a row with the given key. -/
def belongs (r : Relationship) (key row : Json) : Bool :=
  !key.isNull && (row.get? r.target).any (·.looseEq key)

/-- What is attached to a row: all related rows that belong to it, or the first of them. -/
def attachment (r : Relationship) (related : List Json) (row : Json) : Json :=
  let key := (row.get? r.source).getD .null
  if r.isCollection then .arr (related.filter (belongs r key))
  else (related.find? (belongs r key)).getD .null

def attach (name : String) (r : Relationship) (related : List Json) : Json → Json
  | .obj members => .obj (Members.insert members name (attachment r related (.obj members)))
  | row => row

/-- Attaches one relationship to rows, given how a select on the related model is answered. -/
def expandHop (e : Engine σ) (fetch : Model → Select → Act σ Selection) (m : Model)
    (rows : List Json) (group : String × List String) : Act σ (List Json) := do
  let r ← Act.ofExcept (m.relationship group.1)
  let related ← Act.ofExcept (e.model r.related)
  let keys := Pushdown.keysOf r.source rows
  if keys.isEmpty then return rows
  else do
    let selection ← fetch related (relatedSelect related r keys group.2)
    return rows.map (attach group.1 r selection.result)

def expandGroups (e : Engine σ) (fetch : Model → Select → Act σ Selection) (m : Model) :
    List (String × List String) → List Json → Act σ (List Json)
  | [], rows => return rows
  | g :: gs, rows => do
    let rows' ← expandHop e fetch m rows g
    expandGroups e fetch m gs rows'

/-- Sends a select and expands its result along the paths that the operator echoes, at most `hops`
hops deep. -/
def fetch (e : Engine σ) : Nat → Model → Select → Act σ Selection
  | hops, m, op => do
    let answer ← e.host.perform (.select op)
    let selection ← Act.ofExcept answer.toSelection
    if selection.operation.expand.isEmpty then return selection
    else match hops with
      | 0 => throw .echoTooLong
      | hops + 1 =>
        let groups := groupByHead selection.operation.expand
        return { selection with
          result := ← expandGroups e (fetch e hops) m groups selection.result }

/-- Sends a select and expands its result. An operator that echoes the paths it is sent never runs
out of hops. -/
def execute (e : Engine σ) (m : Model) (op : Select) : Act σ Selection :=
  fetch e (depth op.expand + e.echoPatience) m op

def expand (e : Engine σ) (m : Model) (rows : List Json) (paths : List String) :
    Act σ (List Json) :=
  expandGroups e (fetch e (depth paths + e.echoPatience)) m (groupByHead paths) rows

end ModelActions.Expansion
