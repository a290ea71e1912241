import ModelActions.Json.Basic

/-!
# Choice predicates

The conditions on which a choice state decides: tests of a variable, joined by and, or and not. A
variable is a path into the state's input (`$.page`) or into the context document
(`$$.config.softDelete`).
-/
namespace ModelActions

inductive Test where
  | booleanEquals (b : Bool)
  | stringEquals (s : String)
  | numericEquals (x : Float)
  | numericGreaterThan (x : Float)
  | numericGreaterThanEquals (x : Float)
  | numericLessThan (x : Float)
  | numericLessThanEquals (x : Float)
  | isBoolean (b : Bool)
  | isNull (b : Bool)
  /-- The variable has a value other than null. -/
  | isPresent (b : Bool)
  | isNumeric (b : Bool)
  | isString (b : Bool)

/-- A condition on input and context. -/
inductive Predicate where
  | and (all : List Predicate)
  | or (any : List Predicate)
  | not (inner : Predicate)
  | test (variableName : String) (test : Test)

/-- The value that a variable stands for, if there is one. -/
def Predicate.resolve (variableName : String) (input context : Json) : Option Json :=
  let (root, path) := match variableName.toList with
    | '$' :: '$' :: cs => (context, cs)
    | '$' :: cs => (input, cs)
    | cs => (input, cs)
  match path with
  | '.' :: cs => root.lookup (String.ofList cs)
  | cs => root.lookup (String.ofList cs)

/-- Whether a value, or its absence, passes a test. An absent value counts as null. -/
def Test.holds (t : Test) (value : Option Json) : Bool :=
  let number (p : Float → Bool) : Bool := (value.bind Json.float?).any p
  match t with
  | booleanEquals b => value.bind Json.bool? == some b
  | stringEquals s => value.bind Json.string? == some s
  | numericEquals x => number (· == x)
  | numericGreaterThan x => number (x < ·)
  | numericGreaterThanEquals x => number (x ≤ ·)
  | numericLessThan x => number (· < x)
  | numericLessThanEquals x => number (· ≤ x)
  | isBoolean b => value.any Json.isBool == b
  | isNull b => value.all Json.isNull == b
  | isPresent b => (value.any fun v => !v.isNull) == b
  | isNumeric b => value.any Json.isNumber == b
  | isString b => value.any Json.isString == b

namespace Predicate

mutual
/-- Whether a predicate holds of an input in a context. -/
def holds (input context : Json) : Predicate → Bool
  | .and ps => allHold input context ps
  | .or ps => anyHolds input context ps
  | .not p => !holds input context p
  | .test variableName t => t.holds (resolve variableName input context)

def allHold (input context : Json) : List Predicate → Bool
  | [] => true
  | p :: ps => holds input context p && allHold input context ps

def anyHolds (input context : Json) : List Predicate → Bool
  | [] => false
  | p :: ps => holds input context p || anyHolds input context ps
end

end Predicate
end ModelActions
