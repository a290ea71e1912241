import ModelActions.Filter.Match
import ModelActions.Query.Engine

/-!
# Push-down of relationship paths

A leaf whose path leads through a relationship, such as `comments.author.name`, cannot be compared
on the row itself. It becomes a leaf that asks for one of a list of keys: the rest of the path is
pushed down on the related model, the related rows that satisfy it are selected, and their distinct
keys are the list. A path into an attribute of the schema stays as it is.
-/
namespace ModelActions.Pushdown
variable {σ : Type}

/-- The select for the keys of the related rows that satisfy a leaf. -/
def keySelect (related : Model) (r : Relationship) (leaf : Condition) : Select :=
  { table := related.table
    model := related.name
    purpose := some "subquery"
    filters := related.guard (some (.and [.condition leaf]))
    columns := some [r.target] }

/-- The distinct values of a column. -/
def keysOf (column : String) (rows : List Json) : List Json :=
  Json.distinct (rows.filterMap (·.get? column))

/-- Pushes a leaf down whose path is given by its segments. -/
def pushPath (e : Engine σ) (op : Comparator) (value : Json) :
    Model → List String → Act σ Condition
  | _, [] => return ⟨"", op, value⟩
  | _, [name] => return ⟨name, op, value⟩
  | m, hop :: next :: rest =>
    if m.schema.has hop then return ⟨Path.ofSegments (hop :: next :: rest), op, value⟩
    else do
      let r ← Act.ofExcept (m.relationship hop)
      let related ← Act.ofExcept (e.model r.related)
      let leaf ← pushPath e op value related (next :: rest)
      let answer ← e.host.perform (.select (keySelect related r leaf))
      return ⟨r.source, .in, .arr (keysOf r.target answer.toRows)⟩

def pushLeaf (e : Engine σ) (m : Model) (c : Condition) : Act σ Condition :=
  pushPath e c.op c.value m (Path.segments c.path)

mutual
/-- Pushes every leaf of a tree down, from left to right. -/
def push (e : Engine σ) (m : Model) : Filter → Act σ Filter
  | .condition c => do return .condition (← pushLeaf e m c)
  | .group op children => do return .group op (← pushAll e m children)

def pushAll (e : Engine σ) (m : Model) : List Filter → Act σ (List Filter)
  | [] => return []
  | n :: ns => do
    let n' ← push e m n
    let ns' ← pushAll e m ns
    return n' :: ns'
end

def pushGroup (e : Engine σ) (m : Model) (g : FilterGroup) : Act σ FilterGroup := do
  return ⟨g.op, ← pushAll e m g.children⟩

/-- A filter of a model as it goes to the operator: pushed down and restricted to live rows. -/
def resolveGroup (e : Engine σ) (m : Model) (g : FilterGroup) : Act σ FilterGroup := do
  return m.guardGroup (← pushGroup e m g)

def resolve (e : Engine σ) (m : Model) : Option FilterGroup → Act σ (Option FilterGroup)
  | some g => do return m.guard (some (← pushGroup e m g))
  | none => return m.guard none

end ModelActions.Pushdown
