import Mathlib.Data.Finset.Card
import Mathlib.Order.Bounds.Basic
import ModelActions.Operation.Basic

/-!
# Rectangular inserts

A list of rows is inserted only if it has rows and all of them have the same set of columns. The
check compares numbers of columns and looks one way for each name, which is enough where no row has
a column twice. What it reports is the first row that differs from the row at the front.
-/
namespace ModelActions

namespace Row

/-- The names of the columns of a row, in no order. -/
def columns (row : Row) : Finset String := row.keys.toFinset

/-- The positions at which a list has a row with other columns than its first row. -/
def unlikeFirst (rows : List Row) : Set Nat :=
  {i | ∃ first row, rows[0]? = some first ∧ rows[i]? = some row ∧ row.columns ≠ first.columns}

theorem card_columns {row : Row} (h : row.keys.Nodup) : row.columns.card = row.length :=
  (List.toFinset_card_of_nodup h).trans (List.length_map _)

theorem columns_subset_iff {row first : Row} :
    row.columns ⊆ first.columns ↔ row.keys.all first.has = true := by
  simp [columns, Finset.subset_iff, Members.has_iff_mem_keys]

/-- One set that is as large as another and part of it is the same set. -/
theorem sameColumns_iff {row first : Row} (hrow : row.keys.Nodup) (hfirst : first.keys.Nodup) :
    sameColumns row first = true ↔ row.columns = first.columns := by
  rw [sameColumns, Bool.and_eq_true, beq_iff_eq, ← columns_subset_iff, ← card_columns hrow,
    ← card_columns hfirst]
  constructor
  · rintro ⟨hcard, hsubset⟩
    exact Finset.eq_of_subset_of_card_le hsubset hcard.ge
  · intro h
    rw [h]
    exact ⟨rfl, Finset.Subset.refl _⟩

theorem firstUnlike_eq (first : Row) (i : Nat) (rows : List Row) :
    firstUnlike first i rows =
      (rows.findIdx? fun row => !sameColumns row first).map (· + i) := by
  induction rows generalizing i with
  | nil => rfl
  | cons row rows ih =>
    rw [firstUnlike, List.findIdx?_cons]
    cases sameColumns row first with
    | false => simp
    | true => simp [ih, Function.comp_def, Nat.add_assoc, Nat.add_comm 1]

theorem firstUnlike_eq_none_iff {first : Row} {i : Nat} {rows : List Row} :
    firstUnlike first i rows = none ↔ ∀ row ∈ rows, sameColumns row first = true := by
  simp [firstUnlike_eq]

variable {first : Row} {rest : List Row}

theorem mem_unlikeFirst {i : Nat} :
    i ∈ unlikeFirst (first :: rest) ↔
      ∃ j, ∃ h : j < rest.length, rest[j].columns ≠ first.columns ∧ j + 1 = i := by
  constructor
  · rintro ⟨_, row, ⟨⟩, hrow, hne⟩
    cases i with
    | zero =>
      cases hrow
      exact absurd rfl hne
    | succ j =>
      obtain ⟨h, rfl⟩ := List.getElem?_eq_some_iff.1 hrow
      have hj : j < rest.length := Nat.lt_of_succ_lt_succ h
      exact ⟨j, hj, hne, rfl⟩
  · rintro ⟨j, h, hne, rfl⟩
    exact ⟨first, rest[j], rfl, by simp [h], hne⟩

theorem firstUnlike_eq_some_iff (unrepeated : ∀ row ∈ first :: rest, row.keys.Nodup) {i : Nat} :
    firstUnlike first 1 rest = some i ↔ IsLeast (unlikeFirst (first :: rest)) i := by
  obtain ⟨hfirst, hrest⟩ := List.forall_mem_cons.1 unrepeated
  have hunlike (j : Nat) (h : j < rest.length) :
      (!sameColumns rest[j] first) = true ↔ rest[j].columns ≠ first.columns := by
    rw [Bool.not_eq_true', ← Bool.not_eq_true,
      sameColumns_iff (hrest rest[j] (List.getElem_mem h)) hfirst]
  rw [firstUnlike_eq, Option.map_eq_some_iff]
  constructor
  · rintro ⟨j, hj, rfl⟩
    obtain ⟨h, hne, hbefore⟩ := List.findIdx?_eq_some_iff_getElem.1 hj
    refine ⟨mem_unlikeFirst.2 ⟨j, h, (hunlike j h).1 hne, rfl⟩, fun i hi => ?_⟩
    obtain ⟨k, hk, hne', rfl⟩ := mem_unlikeFirst.1 hi
    by_contra hlt
    exact hbefore k (by omega) ((hunlike k hk).2 hne')
  · rintro ⟨hmem, hleast⟩
    obtain ⟨j, h, hne, rfl⟩ := mem_unlikeFirst.1 hmem
    refine ⟨j, List.findIdx?_eq_some_iff_getElem.2 ⟨h, (hunlike j h).2 hne, fun k hk hk' => ?_⟩, rfl⟩
    have hlength : k < rest.length := hk.trans h
    have hle := hleast (mem_unlikeFirst.2 ⟨k, hlength, (hunlike k hlength).1 hk', rfl⟩)
    omega

end Row

namespace Insert

/-- There are rows, and all of them have the same columns. -/
def Rectangular (rows : List Row) : Prop :=
  rows ≠ [] ∧ ∀ row ∈ rows, ∀ row' ∈ rows, Row.columns row = Row.columns row'

theorem rectangular_cons_iff {first : Row} {rest : List Row} :
    Rectangular (first :: rest) ↔ ∀ row ∈ rest, Row.columns row = Row.columns first := by
  constructor
  · rintro ⟨-, hsame⟩ row hrow
    exact hsame row (List.mem_cons_of_mem first hrow) first List.mem_cons_self
  · intro hsame
    have hall : ∀ row ∈ first :: rest, Row.columns row = Row.columns first :=
      List.forall_mem_cons.2 ⟨rfl, hsame⟩
    exact ⟨List.cons_ne_nil first rest,
      fun row hrow row' hrow' => (hall row hrow).trans (hall row' hrow').symm⟩

variable {table model : String} {rows : List Row}

theorem make_rows_eq_ok_iff (unrepeated : ∀ row ∈ rows, row.keys.Nodup) {op : Insert} :
    make table model (.rows rows) = .ok op ↔
      Rectangular rows ∧ op = ⟨table, model, .rows rows⟩ := by
  cases rows with
  | nil => simp [make, Rectangular]
  | cons first rest =>
    obtain ⟨hfirst, hrest⟩ := List.forall_mem_cons.1 unrepeated
    have hnone : Row.firstUnlike first 1 rest = none ↔ Rectangular (first :: rest) := by
      rw [Row.firstUnlike_eq_none_iff, rectangular_cons_iff]
      exact forall₂_congr fun row hrow => Row.sameColumns_iff (hrest row hrow) hfirst
    rw [← hnone, make]
    cases Row.firstUnlike first 1 rest <;> simp [eq_comm]

theorem make_rows_eq_error_iff (unrepeated : ∀ row ∈ rows, row.keys.Nodup) {e : Error} :
    make table model (.rows rows) = .error e ↔
      (rows = [] ∧ e = .invalid "rows" .noRows) ∨
        ∃ i, IsLeast (Row.unlikeFirst rows) i ∧
          e = .invalid ("rows[" ++ toString i ++ "]") .columnsDiffer := by
  cases rows with
  | nil =>
    have hnone (i : Nat) : i ∉ Row.unlikeFirst [] := by
      rintro ⟨_, _, ⟨⟩, _⟩
    simp [make, eq_comm, IsLeast, hnone]
  | cons first rest =>
    simp only [← Row.firstUnlike_eq_some_iff unrepeated]
    rw [make]
    cases Row.firstUnlike first 1 rest <;> simp [eq_comm]

/-- A row is a map, in which no column occurs twice. A list of rows is inserted just if it is
rectangular. Otherwise the error names the whole list if it is empty, and else the least position at
which the columns differ from those of the first row. One row by itself is always inserted. -/
theorem make_rectangular (table model : String) {rows : List Row}
    (unrepeated : ∀ row ∈ rows, row.keys.Nodup) :
    (∀ op, make table model (.rows rows) = .ok op ↔
        Rectangular rows ∧ op = ⟨table, model, .rows rows⟩) ∧
      (∀ e, make table model (.rows rows) = .error e ↔
        (rows = [] ∧ e = .invalid "rows" .noRows) ∨
          ∃ i, IsLeast (Row.unlikeFirst rows) i ∧
            e = .invalid ("rows[" ++ toString i ++ "]") .columnsDiffer) ∧
      ∀ row, make table model (.row row) = .ok ⟨table, model, .row row⟩ :=
  ⟨fun _ => make_rows_eq_ok_iff unrepeated, fun _ => make_rows_eq_error_iff unrepeated,
    fun _ => rfl⟩

/-- The third room has fewer columns than the first, and the last room has others. -/
def rooms : List Row :=
  [[("floor", .int 1), ("name", .str "attic")], [("floor", .null), ("name", .str "cellar")],
    [("floor", .int 2)], [("beds", .int 2), ("name", .str "loft")]]

theorem rooms_rectangular :
    (∀ row ∈ rooms, row.keys.Nodup) ∧ IsLeast (Row.unlikeFirst rooms) 2 ∧
      make "rooms" "room" (.rows rooms) = .error (.invalid "rows[2]" .columnsDiffer) ∧
      Rectangular (rooms.take 2) ∧
      make "rooms" "room" (.rows (rooms.take 2)) =
        .ok ⟨"rooms", "room", .rows (rooms.take 2)⟩ := by
  have hunrepeated : ∀ row ∈ rooms, row.keys.Nodup := by decide
  have hleast : IsLeast (Row.unlikeFirst rooms) 2 :=
    (Row.firstUnlike_eq_some_iff hunrepeated).1 rfl
  have hpair : Rectangular (rooms.take 2) :=
    rectangular_cons_iff.2 fun row hrow => by
      obtain rfl := List.mem_singleton.1 hrow
      rfl
  obtain ⟨-, herror, -⟩ := make_rectangular "rooms" "room" hunrepeated
  obtain ⟨hok, -, -⟩ := make_rectangular "rooms" "room" fun row hrow =>
    hunrepeated row (List.mem_of_mem_take hrow)
  exact ⟨hunrepeated, hleast, (herror _).2 (.inr ⟨2, hleast, rfl⟩), hpair, (hok _).2 ⟨hpair, rfl⟩⟩

end Insert
end ModelActions
