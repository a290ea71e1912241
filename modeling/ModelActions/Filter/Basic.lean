import ModelActions.Json.Basic

/-!
# Filter trees

A filter is a tree: its leaves compare an attribute of a row with a value, its inner nodes join
their children by `and` or `or`. A whole filter is always a group.
-/
namespace ModelActions

/-- How a leaf compares. `eq` comes from the shorthand for attributes and values and `in` from
relationship paths that were pushed down; callers write the others. -/
inductive Comparator where
  | is
  | isNot
  | greaterThan
  | lessThan
  | greaterThanOrEqual
  | lessThanOrEqual
  | contains
  | notContains
  | isAnyOf
  | isNoneOf
  | isEmpty
  | isNotEmpty
  | eq
  | in
  deriving DecidableEq, Repr

namespace Comparator

def all : List Comparator :=
  [is, isNot, greaterThan, lessThan, greaterThanOrEqual, lessThanOrEqual, contains, notContains,
    isAnyOf, isNoneOf, isEmpty, isNotEmpty, eq, .in]

def name : Comparator → String
  | is => "is"
  | isNot => "is_not"
  | greaterThan => "greater_than"
  | lessThan => "less_than"
  | greaterThanOrEqual => "greater_than_or_equal"
  | lessThanOrEqual => "less_than_or_equal"
  | contains => "contains"
  | notContains => "not_contains"
  | isAnyOf => "is_any_of"
  | isNoneOf => "is_none_of"
  | isEmpty => "is_empty"
  | isNotEmpty => "is_not_empty"
  | eq => "eq"
  | .in => "in"

def ofName? (s : String) : Option Comparator := all.find? fun c => c.name == s

@[simp] theorem ofName?_name (c : Comparator) : ofName? c.name = some c := by
  cases c <;> decide +kernel

theorem name_of_ofName? {s : String} {c : Comparator} (h : ofName? s = some c) : c.name = s := by
  simpa using List.find?_some h

end Comparator

inductive Connective where
  | and
  | or
  deriving DecidableEq, Repr

namespace Connective

def name : Connective → String
  | and => "and"
  | or => "or"

def ofName? : String → Option Connective
  | "and" => some and
  | "or" => some or
  | _ => none

@[simp] theorem ofName?_name (c : Connective) : ofName? c.name = some c := by cases c <;> rfl

theorem name_of_ofName? {s : String} {c : Connective} (h : ofName? s = some c) : c.name = s := by
  unfold ofName? at h; split at h <;> simp_all <;> subst h <;> rfl

end Connective

/-- A leaf: the attribute at a dotted path, compared with a value. -/
structure Condition where
  path : String
  op : Comparator
  value : Json

/-- A node of a filter tree. -/
inductive Filter where
  | condition (c : Condition)
  | group (op : Connective) (children : List Filter)

structure FilterGroup where
  op : Connective
  children : List Filter

namespace Filter

mutual
def mapAttributes (f : String → String) : Filter → Filter
  | .condition c => .condition { c with path := f c.path }
  | .group op children => .group op (mapAttributesAll f children)

def mapAttributesAll (f : String → String) : List Filter → List Filter
  | [] => []
  | n :: ns => mapAttributes f n :: mapAttributesAll f ns
end

mutual
def leaves : Filter → List Condition
  | .condition c => [c]
  | .group _ children => leavesAll children

/-- The leaves of a list of nodes from left to right. -/
def leavesAll : List Filter → List Condition
  | [] => []
  | n :: ns => leaves n ++ leavesAll ns
end

theorem mapAttributesAll_eq (f : String → String) (ns : List Filter) :
    mapAttributesAll f ns = ns.map (mapAttributes f) := by
  induction ns with
  | nil => rfl
  | cons n ns ih => simp [mapAttributesAll, ih]

theorem leavesAll_eq (ns : List Filter) : leavesAll ns = ns.flatMap leaves := by
  induction ns with
  | nil => rfl
  | cons n ns ih => simp [leavesAll, ih]

end Filter

namespace FilterGroup

def toFilter (g : FilterGroup) : Filter := .group g.op g.children

def and (children : List Filter) : FilterGroup := ⟨.and, children⟩

def or (children : List Filter) : FilterGroup := ⟨.or, children⟩

def leaf (path : String) (op : Comparator) (value : Json) : FilterGroup :=
  and [.condition ⟨path, op, value⟩]

/-- Both of two filters, where each is there; both sides become children. -/
def conjoin : Option FilterGroup → Option FilterGroup → Option FilterGroup
  | some l, some r => some (and [l.toFilter, r.toFilter])
  | l, none => l
  | none, r => r

def mapAttributes (f : String → String) (g : FilterGroup) : FilterGroup :=
  ⟨g.op, Filter.mapAttributesAll f g.children⟩

def leaves (g : FilterGroup) : List Condition := Filter.leavesAll g.children

end FilterGroup
end ModelActions
