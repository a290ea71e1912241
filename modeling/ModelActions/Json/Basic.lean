import ModelActions.Members
import ModelActions.Path

/-!
# JSON values

Rows, payloads, filters and specifications are JSON values. Numbers are integers or 64-bit floats
and the two are kept apart: `1` and `1.0` are different values that compare equal only where a
comparison says so (`Json.looseEq`). A reader keeps integers from `-2^63` to `2^64 - 1` and makes
every other number a float. There is no text for a number that is not finite, so no value is one.
-/
namespace ModelActions

/-- A JSON value. The members of an object are in ascending order of their keys. -/
inductive Json where
  | null
  | bool (b : Bool)
  | int (n : Int)
  | float (x : Float) (finite : x.isFinite = true)
  | str (s : String)
  | arr (items : List Json)
  | obj (members : List (String × Json))
  deriving Inhabited

/-- A row of a table, as columns and their values. -/
abbrev Row := Members Json

namespace Json

mutual
/-- Structural equality. Floats are compared as numbers, so `0.0` equals `-0.0`. -/
protected def beq : Json → Json → Bool
  | .null, .null => true
  | .bool a, .bool b => a == b
  | .int a, .int b => a == b
  | .float a _, .float b _ => a == b
  | .str a, .str b => a == b
  | .arr a, .arr b => Json.beqItems a b
  | .obj a, .obj b => Json.beqMembers a b
  | _, _ => false
termination_by structural a => a

protected def beqItems : List Json → List Json → Bool
  | [], [] => true
  | a :: as, b :: bs => Json.beq a b && Json.beqItems as bs
  | _, _ => false
termination_by structural as => as

/-- Equality of member lists: the same keys with equal values. -/
protected def beqMembers : List (String × Json) → List (String × Json) → Bool
  | [], [] => true
  | (k, a) :: as, (l, b) :: bs => k == l && Json.beq a b && Json.beqMembers as bs
  | _, _ => false
termination_by structural as => as
end

instance : BEq Json := ⟨Json.beq⟩

def isNull : Json → Bool
  | .null => true
  | _ => false

def isBool : Json → Bool
  | .bool _ => true
  | _ => false

def isString : Json → Bool
  | .str _ => true
  | _ => false

def isInteger : Json → Bool
  | .int _ => true
  | _ => false

def isNumber : Json → Bool
  | .int _ | .float .. => true
  | _ => false

def isArray : Json → Bool
  | .arr _ => true
  | _ => false

def isObject : Json → Bool
  | .obj _ => true
  | _ => false

def bool? : Json → Option Bool
  | .bool b => some b
  | _ => none

def string? : Json → Option String
  | .str s => some s
  | _ => none

/-- A count: an integer that is not negative. -/
def count? : Json → Option Nat
  | .int (.ofNat n) => some n
  | _ => none

def largestFloat : Float := Float.ofBits 0x7fefffffffffffff

/-- The finite float nearest to an integer, ties to even. -/
def nearestFloat (n : Int) : Float :=
  if (Float.ofInt n).isFinite then Float.ofInt n else if n < 0 then -largestFloat else largestFloat

theorem isFinite_nearestFloat (n : Int) : (nearestFloat n).isFinite = true := by
  unfold nearestFloat
  split
  · assumption
  · split <;> decide +kernel

def float? : Json → Option Float
  | .int n => some (nearestFloat n)
  | .float x _ => some x
  | _ => none

theorem isFinite_of_float? {j : Json} {x : Float} (h : j.float? = some x) : x.isFinite = true := by
  cases j <;> cases h
  · exact isFinite_nearestFloat _
  · assumption

def items? : Json → Option (List Json)
  | .arr items => some items
  | _ => none

def members? : Json → Option (Members Json)
  | .obj members => some members
  | _ => none

/-- The member of an object under a key; other values have none. -/
def get? : Json → String → Option Json
  | .obj members, key => Members.get? members key
  | _, _ => none

/-- A number that is not finite has no JSON form and is written as null. -/
def ofFloat (x : Float) : Json := if h : x.isFinite = true then .float x h else .null

def ofNat (n : Nat) : Json := .int n

def ofStrings (ss : List String) : Json := .arr (ss.map .str)

def ofOption {α : Type} (encode : α → Json) : Option α → Json
  | none => .null
  | some a => encode a

theorem string?_eq_some {j : Json} {s : String} : j.string? = some s ↔ j = .str s := by
  cases j <;> simp [string?]

@[simp] theorem count?_ofNat (n : Nat) : (ofNat n).count? = some n := rfl

/-- The value one segment further: a member of an object or an element of an array. -/
def step (segment : String) : Json → Option Json
  | .obj members => Members.get? members segment
  | .arr items => (Path.index? segment).bind (items[·]?)
  | _ => none

/-- The value at the end of a list of segments. -/
def walk : List String → Json → Option Json
  | [], j => some j
  | s :: ss, j => (j.step s).bind (walk ss)

/-- The value at a dotted path; the empty path is the value itself. -/
def lookup (j : Json) (path : String) : Option Json :=
  if path.isEmpty then some j else walk (Path.segments path) j

@[simp] theorem walk_nil (j : Json) : walk [] j = some j := rfl

theorem walk_cons (s : String) (ss : List String) (j : Json) :
    walk (s :: ss) j = (j.step s).bind (walk ss) := rfl

theorem walk_append (ss ts : List String) (j : Json) :
    walk (ss ++ ts) j = (walk ss j).bind (walk ts) := by
  induction ss generalizing j with
  | nil => rfl
  | cons s ss ih =>
    simp only [List.cons_append, walk_cons, Option.bind_assoc]
    cases j.step s <;> simp [ih]

end Json
end ModelActions
