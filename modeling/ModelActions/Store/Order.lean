import ModelActions.Filter.Match
import ModelActions.Operation.Basic

/-!
# Order of rows

Rows are ordered by the first sort key on which they differ. Values that cannot be compared count as
equal, and equal rows keep the order they came in.

Counting as equal is not transitive: null counts as equal to 4 and to 7, and 4 precedes 7. A sort is
not bound to anything then. It may leave the rows in any sequence, and it may crash.
-/
namespace ModelActions

namespace SortKey

def order (k : SortKey) (a b : Json) : Ordering :=
  let o := (((a.get? k.column).getD .null).compare? ((b.get? k.column).getD .null)).getD .eq
  match k.direction with
  | .asc => o
  | .desc => o.swap

/-- Order of two rows by several columns, the first before the others. -/
def orderAll : List SortKey → Json → Json → Ordering
  | [], _, _ => .eq
  | k :: ks, a, b => (k.order a b).then (orderAll ks a b)

end SortKey

namespace Store

/-- Puts a row into a list in descending order, before the first row that it does not precede. -/
def place (precedes : Json → Json → Bool) (row : Json) : List Json → List Json
  | [] => [row]
  | r :: rs => if precedes row r then r :: place precedes row rs else row :: r :: rs

/-- Rows in ascending order; rows of which neither precedes the other keep their order. -/
def arrange (precedes : Json → Json → Bool) (rows : List Json) : List Json :=
  (rows.foldl (fun placed row => place precedes row placed) []).reverse

theorem place_perm (precedes : Json → Json → Bool) (row : Json) (rows : List Json) :
    (place precedes row rows).Perm (row :: rows) := by
  induction rows with
  | nil => exact .refl _
  | cons r rs ih =>
    rw [place]
    split
    · exact (ih.cons r).trans (.swap row r rs)
    · exact .refl _

theorem arrange_perm (precedes : Json → Json → Bool) (rows : List Json) :
    (arrange precedes rows).Perm rows := by
  suffices h : ∀ placed : List Json,
      (rows.foldl (fun placed row => place precedes row placed) placed).Perm (placed ++ rows) from
    (List.reverse_perm _).trans (by simpa using h [])
  induction rows with
  | nil => simp
  | cons r rs ih =>
    intro placed
    refine (ih _).trans ?_
    exact ((place_perm precedes r placed).append_right rs).trans List.perm_middle.symm

end Store

/-- What a sort relies on in an order of some rows: it says the same of two rows both ways round,
and it is transitive. -/
structure Consistent (order : Json → Json → Ordering) (rows : List Json) : Prop where
  swap : ∀ a ∈ rows, ∀ b ∈ rows, order b a = (order a b).swap
  trans : ∀ a ∈ rows, ∀ b ∈ rows, ∀ c ∈ rows,
    (order a b).isLE → (order b c).isLE → (order a c).isLE

instance (order : Json → Json → Ordering) (rows : List Json) : Decidable (Consistent order rows) :=
  decidable_of_iff
    ((∀ a ∈ rows, ∀ b ∈ rows, order b a = (order a b).swap) ∧
      ∀ a ∈ rows, ∀ b ∈ rows, ∀ c ∈ rows,
        (order a b).isLE → (order b c).isLE → (order a c).isLE)
    ⟨fun h => ⟨h.1, h.2⟩, fun h => ⟨h.swap, h.trans⟩⟩

theorem consistent_of_unsorted (rows : List Json) : Consistent (SortKey.orderAll []) rows :=
  ⟨fun _ _ _ _ => rfl, fun _ _ _ _ _ _ _ _ => rfl⟩

/-- A sort, as far as it is specified: it is stable where the order is consistent, and crashes at
worst where it is not. -/
structure Sorter where
  /-- The rows in ascending order, or none if the sort crashes. -/
  sort : (Json → Json → Ordering) → List Json → Option (List Json)
  perm : ∀ {order rows sorted}, sort order rows = some sorted → sorted.Perm rows
  stable : ∀ {order rows}, Consistent order rows →
    sort order rows = some (Store.arrange (fun a b => order a b == .lt) rows)

namespace Sorter

/-- A sort that leaves some rows as they are if there are no sort keys. -/
def sortRows (sorter : Sorter) (keys : List SortKey) (rows : List Json) : Option (List Json) :=
  if keys.isEmpty then some rows else sorter.sort (SortKey.orderAll keys) rows

@[simp] theorem sortRows_nil (sorter : Sorter) (rows : List Json) :
    sorter.sortRows [] rows = some rows := rfl

theorem sortRows_perm {sorter : Sorter} {keys : List SortKey} {rows sorted : List Json}
    (h : sorter.sortRows keys rows = some sorted) : sorted.Perm rows := by
  rw [sortRows] at h
  split at h
  · cases h
    exact .refl _
  · exact sorter.perm h

theorem exists_sortRows (sorter : Sorter) {keys : List SortKey} {rows : List Json}
    (h : Consistent (SortKey.orderAll keys) rows) :
    ∃ sorted, sorter.sortRows keys rows = some sorted := by
  rw [sortRows]
  split
  · exact ⟨rows, rfl⟩
  · exact ⟨_, sorter.stable h⟩

/-- Insertion for a few rows. For more rows, a sort that crashes on an order that is not
consistent. -/
def strict : Sorter where
  sort order rows :=
    if rows.length ≤ 20 ∨ Consistent order rows then
      some (Store.arrange (fun a b => order a b == .lt) rows)
    else none
  perm h := by
    split at h
    · cases h
      exact Store.arrange_perm _ _
    · contradiction
  stable h := if_pos (.inr h)

theorem strict_of_not_consistent {order : Json → Json → Ordering} {rows : List Json}
    (many : 20 < rows.length) (h : ¬Consistent order rows) : strict.sort order rows = none :=
  if_neg (not_or.2 ⟨Nat.not_le.2 many, h⟩)

end Sorter
end ModelActions
