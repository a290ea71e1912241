import ModelActions.Proofs.KeyColumns
import ModelActions.Proofs.RecordForms
import ModelActions.Proofs.Sessions

/-!
# Affected rows

A select, an update, a soft delete and a hard delete with one filter agree on the rows that it is
about, and on the places where these stand in the table. The update and the soft delete change the
rows at these places and no other, whether or not the rows satisfy the filter afterwards; the hard
delete closes the gaps.
-/
namespace ModelActions

/-! ## Rows at places -/

section
variable {α : Type}

/-- Some elements of a list, with the places where they stand. -/
structure StandAt (as : List α) (places : List Nat) (part : List α) : Prop where
  ascending : places.Pairwise (· < ·)
  each : places.map (as[·]?) = part.map some

/-- The list `bs` has other elements at some places of `as`, and differs from it nowhere else. -/
structure Exchanged (places : List Nat) (part as bs : List α) : Prop where
  stand : StandAt bs places part
  length : bs.length = as.length
  others : ∀ i, i ∉ places → bs[i]? = as[i]?

/-- The list `bs` has the elements of `as` that do not stand at some places, in their order. -/
def Dropped (places : List Nat) (as bs : List α) : Prop :=
  ∃ kept, StandAt as kept bs ∧ ∀ i, i ∈ kept ↔ i < as.length ∧ i ∉ places

/-- The places where elements satisfy a test. -/
def placesOf (p : α → Bool) (as : List α) : List Nat :=
  (List.range as.length).filter fun i => as[i]?.any p

variable {p : α → Bool} {as part : List α} {places : List Nat} {i : Nat}

theorem mem_placesOf : i ∈ placesOf p as ↔ ∃ a, as[i]? = some a ∧ p a = true := by
  rw [placesOf, List.mem_filter, List.mem_range, Option.any_eq_true]
  constructor
  · exact And.right
  · rintro ⟨a, ha, hp⟩
    exact ⟨(List.getElem?_eq_some_iff.1 ha).1, a, ha, hp⟩

/-- Equal elements pass a test together, so the places are known from the elements. -/
theorem mem_placesOf_iff_mem_filter :
    i ∈ placesOf p as ↔ ∃ a ∈ as.filter p, as[i]? = some a := by
  rw [mem_placesOf]
  constructor
  · rintro ⟨a, ha, hp⟩
    exact ⟨a, List.mem_filter.2 ⟨List.mem_of_getElem? ha, hp⟩, ha⟩
  · rintro ⟨a, hmem, ha⟩
    exact ⟨a, ha, (List.mem_filter.1 hmem).2⟩

theorem standAt_filter (p : α → Bool) (as : List α) :
    StandAt as (placesOf p as) (as.filter p) where
  ascending := List.pairwise_lt_range.filter _
  each := by
    have hall : (List.range as.length).map (as[·]?) = as.map some := by
      refine List.ext_getElem? fun i => ?_
      rcases lt_or_ge i as.length with h | h <;> simp [h]
    calc (placesOf p as).map (as[·]?)
        = ((List.range as.length).map (as[·]?)).filter (Option.any p) := by
          rw [List.filter_map]
          rfl
      _ = (as.filter p).map some := by
          rw [hall, List.filter_map]
          rfl

/-- Changing the elements that pass a test leaves them where they are. -/
theorem exchanged_filter (p : α → Bool) (f : α → α) (as : List α) :
    Exchanged (placesOf p as) ((as.filter p).map f) as
      (as.map fun a => if p a then f a else a) where
  stand := by
    refine ⟨(standAt_filter p as).ascending, ?_⟩
    calc (placesOf p as).map ((as.map fun a => if p a then f a else a)[·]?)
        = ((placesOf p as).map (as[·]?)).map (Option.map f) := by
          rw [List.map_map]
          refine List.map_congr_left fun i hi => ?_
          obtain ⟨a, ha, hp⟩ := mem_placesOf.1 hi
          simp [ha, hp]
      _ = ((as.filter p).map f).map some := by
          rw [(standAt_filter p as).each, List.map_map, List.map_map]
          rfl
  length := List.length_map _
  others i hi := by
    rw [List.getElem?_map]
    cases ha : as[i]? with
    | none => rfl
    | some a =>
      have hp : ¬ p a = true := fun hp => hi (mem_placesOf.2 ⟨a, ha, hp⟩)
      rw [Option.map_some, if_neg hp]

theorem dropped_filter (p : α → Bool) (as : List α) :
    Dropped (placesOf p as) as (as.filter fun a => !p a) := by
  refine ⟨_, standAt_filter (fun a => !p a) as, fun i => ?_⟩
  rw [mem_placesOf, mem_placesOf]
  rcases lt_or_ge i as.length with h | h <;> simp [h]

end

/-! ## Rows written over -/

/-- The row `new` has the columns of `data`, and otherwise those of `old`. -/
structure WrittenOver (data : Row) (old new : Json) : Prop where
  isObject : new.isObject = true
  columns : ∀ c, new.get? c = (data.get? c).or (old.get? c)

theorem writtenOver_overwrite {data : Row} {row : Json} (sorted : Members.Sorted data)
    (h : row.isObject = true) : WrittenOver data row (row.overwrite data) := by
  cases row with
  | obj members =>
    have hnodup : data.keys.Nodup := sorted.imp fun h => h.ne
    exact ⟨rfl, Members.get?_overwrite hnodup members⟩
  | _ => cases h

namespace Store

/-! ## Runs of operations -/

/-- An operation answers, leaves its table in some state and the others as they were, and is logged
once. -/
structure Performs (world : World) (s : Store) (op : Operation) (answer : Answer)
    (leaves : List Json → Prop) : Prop where
  answers : (execute world op s).1 = .ok answer
  leaves : leaves ((execute world op s).2.rows op.table)
  others : ∀ t, t ≠ op.table → (execute world op s).2.rows t = s.rows t
  logs : (execute world op s).2.log = s.log ++ [op]

theorem performs {world : World} {s : Store} {op : Operation} {answer : Answer}
    {leaves : List Json → Prop} (answers : (execute world op s).1 = .ok answer)
    (h : leaves ((execute world op s).2.rows op.table)) : Performs world s op answer leaves where
  answers
  leaves := h
  others _ ht := rows_carryOut_of_ne world op _ ht
  logs := log_execute world op s

theorem log_replay (steps : List (World × Operation)) (s : Store) :
    (replay steps s).log = s.log ++ steps.map (·.2) := by
  induction steps generalizing s with
  | nil => exact (List.append_nil _).symm
  | cons step steps ih =>
    refine (ih _).trans ?_
    rw [log_execute, List.append_assoc]
    rfl

theorem rows_replay_of_ne (steps : List (World × Operation)) (s : Store) {t : String}
    (h : ∀ step ∈ steps, t ≠ step.2.table) : (replay steps s).rows t = s.rows t := by
  induction steps generalizing s with
  | nil => rfl
  | cons step steps ih =>
    obtain ⟨hstep, hsteps⟩ := List.forall_mem_cons.1 h
    exact (ih _ hsteps).trans (rows_carryOut_of_ne step.1 step.2 _ hstep)

/-! ## One filter -/

/-- An operation writes data over the rows that were found at some places, and gives them back. -/
structure Rewrites (world : World) (s : Store) (op : Operation) (places : List Nat)
    (found : List Json) (data : Row) : Prop where
  performs : Performs world s op (.rows (found.map (Json.overwrite data)))
    (Exchanged places (found.map (Json.overwrite data)) (s.rows op.table))
  written : ∀ row ∈ found, WrittenOver data row (row.overwrite data)

variable {s : Store} {op : Select} {g : FilterGroup}

theorem found_eq_matching (filters : op.filters = some g) :
    s.found op = s.matching op.table g := by
  rw [found, filters]
  rfl

theorem select_eq_matching (world : World) (filters : op.filters = some g)
    (unsorted : op.sorts = []) (unpaged : op.pagination = none) (whole : op.columns = none) :
    ∃ found, s.select world op = some found ∧ found.result = s.matching op.table g := by
  refine ⟨_, select_of_unsorted unsorted, ?_⟩
  simp only [selection, unpaged, whole, page, found_eq_matching filters]

/-- No sort crashes on an empty list. -/
theorem select_eq_nil (world : World) (filters : op.filters = some g)
    (none : s.matching op.table g = []) :
    ∃ found, s.select world op = some found ∧ found.result = [] := by
  have hnone : s.found op = [] := (found_eq_matching filters).trans none
  obtain ⟨rows, hrows⟩ : ∃ rows, s.sorted world op = some rows :=
    world.sorter.exists_sortRows (hnone ▸ ⟨nofun, nofun⟩)
  obtain rfl : rows = [] := List.perm_nil.1 (hnone ▸ Sorter.sortRows_perm hrows)
  refine ⟨selection op [], congrArg (Option.map (selection op)) hrows, ?_⟩
  rw [selection]
  cases op.pagination <;> cases op.columns <;> simp [page]

/-- An update and a soft delete are the same but for what they write. -/
theorem rewrites_of_amends {world : World} (op : Operation) {data : Row}
    (amends : ∀ t, carryOut world op t =
      (.ok (.rows (amend t op.table g data).1), (amend t op.table g data).2))
    (objects : s.ObjectRows) (sorted : Members.Sorted data) :
    Rewrites world s op (placesOf g.holds (s.rows op.table)) (s.matching op.table g) data where
  performs := by
    have hexecute := amends { s with log := s.log ++ [op] }
    refine performs ?_ ?_
    · rw [execute, hexecute]
      rfl
    · rw [execute, hexecute, amend, rows_put_self]
      exact exchanged_filter g.holds (Json.overwrite data) (s.rows op.table)
  written row hrow :=
    writtenOver_overwrite sorted (objects op.table row (List.mem_of_mem_filter hrow))

theorem rows_delete (world : World) (s : Store) (table model : String) (g : FilterGroup) :
    (execute world (.delete ⟨table, model, g, false⟩) s).2.rows table =
      (s.rows table).filter fun row => !g.holds row :=
  rows_put_self _ _ _

theorem matching_delete (world : World) (s : Store) (table model : String) (g : FilterGroup) :
    (execute world (.delete ⟨table, model, g, false⟩) s).2.matching table g = [] := by
  simp [matching, rows_delete, List.filter_filter]

/-- The rows that a select finds are those that an update and both kinds of delete with its filter
are about, at the same places. Nothing else changes, and each of any operations is logged once. -/
theorem affected_alike (world : World) (objects : s.ObjectRows) (filters : op.filters = some g)
    (unsorted : op.sorts = []) (unpaged : op.pagination = none) (whole : op.columns = none) :
    ∃ found places, s.select world op = some found ∧
      StandAt (s.rows op.table) places found.result ∧
      (∀ i, i ∈ places ↔ ∃ row ∈ found.result, (s.rows op.table)[i]? = some row) ∧
      Performs world s (.select op) (.selected found) (· = s.rows op.table) ∧
      (∀ model data, Members.Sorted data →
        Rewrites world s (.update ⟨op.table, model, data, g⟩) places found.result data) ∧
      (∀ model, Rewrites world s (.delete ⟨op.table, model, g, true⟩) places found.result
        [(deletedAt, .ofNat world.second)]) ∧
      (∀ model, Performs world s (.delete ⟨op.table, model, g, false⟩)
          (.rows found.result) (Dropped places (s.rows op.table)) ∧
        ∀ again : Select, again.table = op.table → again.filters = some g →
          ∃ nothing, (execute world (.delete ⟨op.table, model, g, false⟩) s).2.select world again =
            some nothing ∧ nothing.result = []) ∧
      ∀ steps, (replay steps s).log = s.log ++ steps.map (·.2) ∧
        ∀ t, (∀ step ∈ steps, t ≠ step.2.table) → (replay steps s).rows t = s.rows t := by
  obtain ⟨found, hselect, hfound⟩ :=
    select_eq_matching (s := s) world filters unsorted unpaged whole
  refine ⟨found, placesOf g.holds (s.rows op.table), hselect, ?_⟩
  rw [hfound]
  refine ⟨standAt_filter _ _, fun i => mem_placesOf_iff_mem_filter, performs ?answer rfl,
    fun model data sorted => ?update, fun model => ?soft, fun model => ⟨?hard, ?gone⟩,
    fun steps => ⟨log_replay steps s, fun t => rows_replay_of_ne steps s⟩⟩
  case answer =>
    have hlogged : Store.select world { s with log := s.log ++ [.select op] } op = some found :=
      hselect
    rw [execute, carryOut, hlogged]
  case update =>
    exact rewrites_of_amends (.update ⟨op.table, model, data, g⟩) (fun t => rfl) objects sorted
  case soft =>
    exact rewrites_of_amends (.delete ⟨op.table, model, g, true⟩) (fun t => rfl) objects
      (List.pairwise_singleton _ _)
  case hard =>
    refine performs rfl ?_
    exact rows_delete world s op.table model g ▸ dropped_filter g.holds (s.rows op.table)
  case gone =>
    intro again htable hfilters
    refine select_eq_nil world hfilters ?_
    rw [htable]
    exact matching_delete world s op.table model g

end Store

namespace Bills

def bill (state : String) : Json := .obj [("id", .str "b"), ("state", .str state)]

def isOpen : FilterGroup := .leaf "state" .is (.str "open")

def openBills : Select where
  table := "bills"
  model := "bill"
  filters := some isOpen

/-- The first bill is there twice. -/
def store : Store where
  rows t := if t = "bills" then [bill "open", bill "paid", bill "open"] else []

/-- The open bills are paid. -/
def payment : Update := ⟨"bills", "bill", [("state", .str "paid")], isOpen⟩

theorem objectRows : store.ObjectRows := by
  intro table row hrow
  simp only [store] at hrow
  split at hrow
  · simp only [List.mem_cons, List.not_mem_nil, or_false] at hrow
    obtain rfl | rfl | rfl := hrow <;> rfl
  · cases hrow

/-- Bills that are paid are no longer open, and still the second open one is paid too. -/
theorem openBills_affected :
    store.ObjectRows ∧ openBills.filters = some isOpen ∧ openBills.sorts = [] ∧
      openBills.pagination = none ∧ openBills.columns = none ∧
      (store.select Blog.world openBills).map Selection.result =
        some [bill "open", bill "open"] ∧
      (Store.execute Blog.world (.update payment) store).2.rows "bills" =
        [bill "paid", bill "paid", bill "paid"] ∧
      ∃ places, StandAt [bill "open", bill "paid", bill "open"] places
          [bill "open", bill "open"] ∧
        Exchanged places [bill "paid", bill "paid"] [bill "open", bill "paid", bill "open"]
          [bill "paid", bill "paid", bill "paid"] := by
  have hopen : (store.select Blog.world openBills).map Selection.result =
      some [bill "open", bill "open"] := by rfl
  have hpaid : (Store.execute Blog.world (.update payment) store).2.rows "bills" =
      [bill "paid", bill "paid", bill "paid"] := by rfl
  obtain ⟨found, places, hselect, hstand, -, -, hupdate, -⟩ :=
    Store.affected_alike Blog.world objectRows (rfl : openBills.filters = some isOpen) rfl rfl rfl
  have hfound : found.result = [bill "open", bill "open"] := by
    rwa [hselect, Option.map_some, Option.some.injEq] at hopen
  have hrewrites := hupdate "bill" [("state", .str "paid")] (List.pairwise_singleton _ _)
  rw [hfound] at hstand hrewrites
  exact ⟨objectRows, rfl, rfl, rfl, rfl, hopen, hpaid, places, hstand, hrewrites.performs.leaves⟩

end Bills
end ModelActions
