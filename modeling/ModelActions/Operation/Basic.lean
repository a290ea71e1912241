import ModelActions.Error
import ModelActions.Filter.Basic

/-!
# Database operations

What the engine asks of an operator: one insert, update, delete or select on one table. They say
what is to be done and leave open how it is stored.
-/
namespace ModelActions

/-- The column that a soft delete marks. -/
def deletedAt : String := "deleted_at"

/-- The largest count of 64 bits. -/
def maxCount : Nat := 0xffffffffffffffff

inductive SortDirection where
  | asc
  | desc
  deriving DecidableEq, Repr

namespace SortDirection

def name : SortDirection → String
  | asc => "asc"
  | desc => "desc"

def ofName? : String → Option SortDirection
  | "asc" => some asc
  | "desc" => some desc
  | _ => none

def ofAnyCase? (s : String) : Option SortDirection := ofName? (s.map Char.toLower)

@[simp] theorem ofName?_name (d : SortDirection) : ofName? d.name = some d := by cases d <;> rfl

theorem name_of_ofName? {s : String} {d : SortDirection} (h : ofName? s = some d) : d.name = s := by
  unfold ofName? at h; split at h <;> cases h <;> rfl

end SortDirection

structure SortKey where
  column : String
  direction : SortDirection
  deriving DecidableEq, Repr

/-- A page of a result; pages are counted from one. -/
structure Pagination where
  page : Option Nat := none
  perPage : Nat
  cursor : Option String := none
  deriving DecidableEq, Repr

/-- Number of rows before the page, kept within 64 bits. -/
def Pagination.offset (p : Pagination) : Nat :=
  min ((p.page.getD 1 - 1) * p.perPage) maxCount

inductive JoinKind where
  | inner
  | left
  deriving DecidableEq, Repr

/-- Columns that a join equates, each with its table before it. -/
structure JoinCondition where
  left : String
  right : String
  deriving DecidableEq, Repr

structure Join where
  table : String
  kind : JoinKind
  conditions : List JoinCondition
  deriving DecidableEq, Repr

/-- The rows of an insert: one, or a list. -/
inductive Payload where
  | row (row : Row)
  | rows (rows : List Row)

def Payload.toList : Payload → List Row
  | row r => [r]
  | rows rs => rs

structure Insert where
  table : String
  model : String
  payload : Payload

/-- Whether two rows have the same columns: as many of them, and each of the first in the second. -/
def Row.sameColumns (row first : Row) : Bool :=
  row.length == first.length && row.keys.all first.has

/-- The position, counted from `i`, of the first row whose columns differ. -/
def Row.firstUnlike (first : Row) (i : Nat) : List Row → Option Nat
  | [] => none
  | r :: rs => if Row.sameColumns r first then firstUnlike first (i + 1) rs else some i

/-- An insert whose rows all have the same columns. -/
def Insert.make (table model : String) (payload : Payload) : Except Error Insert :=
  match payload with
  | .row _ => .ok ⟨table, model, payload⟩
  | .rows [] => .error (.invalid "rows" .noRows)
  | .rows (first :: rest) =>
    match Row.firstUnlike first 1 rest with
    | some i => .error (.invalid ("rows[" ++ toString i ++ "]") .columnsDiffer)
    | none => .ok ⟨table, model, payload⟩

structure Update where
  table : String
  model : String
  data : Row
  conditions : FilterGroup

structure Delete where
  table : String
  model : String
  conditions : FilterGroup
  /-- Mark the rows instead of removing them. -/
  soft : Bool

structure Select where
  table : String
  model : String
  purpose : Option String := none
  filters : Option FilterGroup := none
  sorts : List SortKey := []
  pagination : Option Pagination := none
  columns : Option (List String) := none
  expand : List String := []
  joins : List Join := []
  scopes : Option Json := none

inductive Operation where
  | insert (op : Insert)
  | update (op : Update)
  | delete (op : Delete)
  | select (op : Select)

namespace Operation

def table : Operation → String
  | insert op => op.table
  | update op => op.table
  | delete op => op.table
  | select op => op.table

def kind : Operation → String
  | insert _ => "insert"
  | update _ => "update"
  | delete _ => "delete"
  | select _ => "select"

end Operation

/-- What a select found, with an echo of the select. -/
structure Selection where
  result : List Json
  operation : Select
  /-- Number of rows before paging. -/
  total : Option Nat := none

inductive Answer where
  | rows (rows : List Json)
  | selected (selection : Selection)

namespace Answer

def toRows : Answer → List Json
  | rows rs => rs
  | selected s => s.result

def toSelection : Answer → Except Error Selection
  | selected s => .ok s
  | rows _ => .error (.operator "operator answered a select without echoing the operation")

end Answer
end ModelActions
