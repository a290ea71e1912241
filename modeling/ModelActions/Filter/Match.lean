import ModelActions.Filter.Basic
import ModelActions.Json.Text

/-!
# Matching rows

When a row satisfies a filter. Numbers are compared as 64-bit floats with a small tolerance, so that
`7` and `7.0` are the same key; values of different kinds are never ordered.
-/
namespace ModelActions
namespace Json

/-- The distance below which two numbers count as equal, `2^-52`. -/
def tolerance : Float := Float.ofBits 0x3CB0000000000000

/-- Equality that treats `7` and `7.0` as the same number. -/
def looseEq (a b : Json) : Bool :=
  match a.float?, b.float? with
  | some x, some y => (x - y).abs < tolerance
  | _, _ => a == b

/-- Adds a value to those seen, unless it is null or equal to one of them. -/
def addDistinct (seen : List Json) (value : Json) : List Json :=
  if value.isNull || seen.any (·.looseEq value) then seen else seen ++ [value]

/-- The values without null and without repetition, in the order in which they first occur. -/
def distinct (values : List Json) : List Json := values.foldl addDistinct []

/-- The order of two values of the same scalar kind. -/
def compare? (a b : Json) : Option Ordering :=
  match a, b with
  | .str x, .str y => some (compare x y)
  | .bool x, .bool y => some (compare x y)
  | _, _ =>
    match a.float?, b.float? with
    | some x, some y =>
      if x < y then some .lt else if x == y then some .eq else if y < x then some .gt else none
    | _, _ => none

def occursIn (part whole : List Char) : Bool :=
  part.isPrefixOf whole ||
    match whole with
    | [] => false
    | _ :: cs => occursIn part cs

/-- A string contains the text of a value, an array a value equal to it. -/
def contains (actual expected : Json) : Bool :=
  match actual with
  | .str s =>
    match expected with
    | .str part => occursIn part.toList s.toList
    | other => occursIn other.text.toList s.toList
  | .arr items => items.any (·.looseEq expected)
  | _ => false

/-- Equal to one of a list of values, or to the one value given. -/
def isOneOf (actual expected : Json) : Bool :=
  match expected with
  | .arr options => options.any fun o => actual.looseEq o
  | single => actual.looseEq single

/-- Null, or an empty string, array or object. -/
def isEmpty : Json → Bool
  | .null => true
  | .str s => s.isEmpty
  | .arr items => items.isEmpty
  | .obj members => members.isEmpty
  | _ => false

end Json

def Comparator.holds (op : Comparator) (actual expected : Json) : Bool :=
  match op with
  | .is | .eq => actual.looseEq expected
  | .isNot => !actual.looseEq expected
  | .greaterThan => actual.compare? expected == some .gt
  | .lessThan => actual.compare? expected == some .lt
  | .greaterThanOrEqual =>
    actual.compare? expected == some .gt || actual.compare? expected == some .eq
  | .lessThanOrEqual =>
    actual.compare? expected == some .lt || actual.compare? expected == some .eq
  | .contains => actual.contains expected
  | .notContains => !actual.contains expected
  | .isAnyOf | .in => actual.isOneOf expected
  | .isNoneOf => !actual.isOneOf expected
  | .isEmpty => actual.isEmpty
  | .isNotEmpty => !actual.isEmpty

/-- Whether a row satisfies a leaf; an attribute that is absent counts as null. -/
def Condition.holds (c : Condition) (row : Json) : Bool :=
  c.op.holds ((row.lookup c.path).getD .null) c.value

namespace Filter

mutual
def holds (row : Json) : Filter → Bool
  | .condition c => c.holds row
  | .group .and children => allHold row children
  | .group .or children => anyHolds row children

def allHold (row : Json) : List Filter → Bool
  | [] => true
  | n :: ns => holds row n && allHold row ns

def anyHolds (row : Json) : List Filter → Bool
  | [] => false
  | n :: ns => holds row n || anyHolds row ns
end

theorem allHold_eq (row : Json) (ns : List Filter) : allHold row ns = ns.all (holds row) := by
  induction ns with
  | nil => rfl
  | cons n ns ih => simp [allHold, ih]

theorem anyHolds_eq (row : Json) (ns : List Filter) : anyHolds row ns = ns.any (holds row) := by
  induction ns with
  | nil => rfl
  | cons n ns ih => simp [anyHolds, ih]

end Filter

def FilterGroup.holds (g : FilterGroup) (row : Json) : Bool := g.toFilter.holds row

theorem FilterGroup.holds_and (children : List Filter) (row : Json) :
    (FilterGroup.and children).holds row = children.all (Filter.holds row) :=
  Filter.allHold_eq row children

theorem FilterGroup.holds_or (children : List Filter) (row : Json) :
    (FilterGroup.or children).holds row = children.any (Filter.holds row) :=
  Filter.anyHolds_eq row children

end ModelActions
