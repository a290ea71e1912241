import ModelActions.Host
import ModelActions.Store.Order

/-!
# Row store

An operator that keeps its tables in memory and logs every operation it receives. A table that was
never written is empty.
-/
namespace ModelActions

structure Store where
  /-- The rows of each table. -/
  rows : String → List Json := fun _ => []
  /-- The operations received so far, in order. -/
  log : List Operation := []
  /-- How many keys were given out. -/
  keysDrawn : Nat := 0

/-- What a store relies on: the time, fresh keys, and a sort. -/
structure World where
  /-- The time, in the format of RFC 3339. -/
  now : String
  /-- The time, in seconds since 1970. -/
  second : Nat
  /-- The keys in the order in which they are given out. -/
  key : Nat → String
  /-- What puts rows in the order of sort keys. -/
  sorter : Sorter

/-- Writes columns over those of a row; other values stay as they are. -/
def Json.overwrite (data : Row) : Json → Json
  | .obj members => .obj (Members.overwrite members data)
  | j => j

/-- The columns of a row that a select asks for, as far as the row has them. -/
def Json.project (columns : List String) (row : Json) : Json :=
  .obj (Members.ofList (columns.filterMap fun c => (row.get? c).map (c, ·)))

namespace Store

def put (s : Store) (table : String) (rows : List Json) : Store :=
  { s with rows := fun t => if t = table then rows else s.rows t }

@[simp] theorem rows_put_self (s : Store) (table : String) (rows : List Json) :
    (s.put table rows).rows table = rows := by simp [put]

theorem rows_put_of_ne (s : Store) {table t : String} (rows : List Json) (h : t ≠ table) :
    (s.put table rows).rows t = s.rows t := by simp [put, h]

def seed (s : Store) (table : String) (rows : List Json) : Store :=
  s.put table (s.rows table ++ rows)

def matching (s : Store) (table : String) (filter : FilterGroup) : List Json :=
  (s.rows table).filter filter.holds

/-- Writes columns over those of the rows that satisfy a filter, and gives these rows back. -/
def amend (s : Store) (table : String) (filter : FilterGroup) (data : Row) : List Json × Store :=
  ((s.matching table filter).map (Json.overwrite data),
    s.put table ((s.rows table).map fun r => if filter.holds r then r.overwrite data else r))

/-- Removes the rows that satisfy a filter, and gives them back. -/
def remove (s : Store) (table : String) (filter : FilterGroup) : List Json × Store :=
  (s.matching table filter, s.put table ((s.rows table).filter fun r => !filter.holds r))

/-- The rows that satisfy the filter of a select, in the order of the table. -/
def found (s : Store) (op : Select) : List Json :=
  (s.rows op.table).filter fun row => op.filters.all (·.holds row)

/-- The rows of a select before paging, in order; none if the sort crashes. -/
def sorted (world : World) (s : Store) (op : Select) : Option (List Json) :=
  world.sorter.sortRows op.sorts (s.found op)

def page (pagination : Option Pagination) (rows : List Json) : List Json :=
  match pagination with
  | some p => (rows.drop p.offset).take p.perPage
  | none => rows

/-- What a select answers of the rows that it found, in order: one page of them, projected. The
total is counted only when there are pages. -/
def selection (op : Select) (rows : List Json) : Selection :=
  let paged := page op.pagination rows
  { result := match op.columns with
      | some columns => paged.map (Json.project columns)
      | none => paged
    operation := op
    total := op.pagination.map fun _ => rows.length }

/-- The answer to a select, which there is unless the sort crashes. -/
def select (world : World) (s : Store) (op : Select) : Option Selection :=
  (s.sorted world op).map (selection op)

theorem select_of_unsorted {world : World} {s : Store} {op : Select} (unsorted : op.sorts = []) :
    s.select world op = some (selection op (s.found op)) := by
  rw [select, sorted, unsorted, Sorter.sortRows_nil, Option.map_some]

/-- Carries out an operation without logging it. -/
def carryOut (world : World) (op : Operation) (s : Store) : Except Failure Answer × Store :=
  match op with
  | .insert o =>
    let rows := o.payload.toList.map Json.obj
    (.ok (.rows rows), s.seed o.table rows)
  | .update o =>
    let (rows, s') := s.amend o.table o.conditions o.data
    (.ok (.rows rows), s')
  | .delete o =>
    let (rows, s') :=
      if o.soft then s.amend o.table o.conditions [(deletedAt, .ofNat world.second)]
      else s.remove o.table o.conditions
    (.ok (.rows rows), s')
  | .select o =>
    let answer := match s.select world o with
      | some found => .ok (.selected found)
      | none => .error .crashed
    (answer, s)

def execute (world : World) (op : Operation) (s : Store) : Except Failure Answer × Store :=
  carryOut world op { s with log := s.log ++ [op] }

@[simp] theorem log_put (s : Store) (table : String) (rows : List Json) :
    (s.put table rows).log = s.log := rfl

/-- An operation writes to its own table only. -/
theorem rows_carryOut_of_ne (world : World) (op : Operation) (s : Store) {t : String}
    (h : t ≠ op.table) : (carryOut world op s).2.rows t = s.rows t := by
  cases op with
  | insert o => exact rows_put_of_ne s _ h
  | update o => exact rows_put_of_ne s _ h
  | delete o =>
    rw [carryOut]
    cases o.soft
    · exact rows_put_of_ne s _ h
    · exact rows_put_of_ne s _ h
  | select o => rfl

/-- What an operation writes depends on the rows only. -/
theorem rows_carryOut_congr (world : World) (op : Operation) {s t : Store} (h : t.rows = s.rows) :
    (carryOut world op t).2.rows = (carryOut world op s).2.rows := by
  have hput (table : String) (rows : List Json) :
      (t.put table rows).rows = (s.put table rows).rows := by rw [put, put, h]
  cases op with
  | insert o => simp only [carryOut, seed, hput, h]
  | update o => simp only [carryOut, amend, hput, h]
  | delete o =>
    simp only [carryOut]
    cases o.soft
    · simp only [remove, hput, h, Bool.false_eq_true, if_false]
    · simp only [amend, hput, h, if_true]
  | select o => exact h

theorem log_carryOut (world : World) (op : Operation) (s : Store) :
    (carryOut world op s).2.log = s.log := by
  cases op with
  | delete o => rw [carryOut]; cases o.soft <;> rfl
  | _ => rfl

theorem log_execute (world : World) (op : Operation) (s : Store) :
    (execute world op s).2.log = s.log ++ [op] := log_carryOut world op _

def selectsOn (s : Store) (table : String) : List Select :=
  s.log.filterMap fun op =>
    match op with
    | .select o => if o.table = table then some o else none
    | _ => none

/-- The store as a host. It fails only where the sort of a select crashes. -/
def host (world : World) : Host Store where
  execute := execute world
  now s := (world.now, s)
  freshKey s := (world.key s.keysDrawn, { s with keysDrawn := s.keysDrawn + 1 })

end Store
end ModelActions
