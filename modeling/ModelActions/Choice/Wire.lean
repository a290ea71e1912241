import ModelActions.Choice.Basic
import ModelActions.Json.Record

/-!
# Choice predicates as JSON

A predicate is written as a record with a variable and exactly one test, or with exactly one of
`And`, `Or` and `Not`. Every field may be absent or null. What is wrong with a record is reported
for the first field, in the order in which they are written, that cannot be read, and only then for
the record as a whole.
-/
namespace ModelActions

/-- Why JSON is not read as a predicate or as a graph. -/
inductive Misreading where
  /-- A value has the wrong kind, or a field is missing. -/
  | shape
  | emptyAnd
  | emptyOr
  | noVariable
  | noTest
  | severalTests (n : Nat)
  deriving DecidableEq, Repr

def Misreading.message : Misreading → String
  | shape => "unexpected shape"
  | emptyAnd => "`And` requires at least one predicate"
  | emptyOr => "`Or` requires at least one predicate"
  | noVariable => "comparison requires a `Variable`"
  | noTest => "rule has no test or combinator"
  | severalTests n => "rule carries " ++ toString n ++ " tests, expected exactly one"

/-- A field that is absent or null, or has to be read. -/
def Misreading.orNull {α : Type} (read : Json → Option α) (j : Json) :
    Except Misreading (Option α) :=
  match j.orNull read with
  | some a => .ok a
  | none => .error .shape

namespace Test

def key : Test → String
  | booleanEquals _ => "BooleanEquals"
  | stringEquals _ => "StringEquals"
  | numericEquals _ => "NumericEquals"
  | numericGreaterThan _ => "NumericGreaterThan"
  | numericGreaterThanEquals _ => "NumericGreaterThanEquals"
  | numericLessThan _ => "NumericLessThan"
  | numericLessThanEquals _ => "NumericLessThanEquals"
  | isBoolean _ => "IsBoolean"
  | isNull _ => "IsNull"
  | isPresent _ => "IsPresent"
  | isNumeric _ => "IsNumeric"
  | isString _ => "IsString"

def toJson : Test → Json
  | booleanEquals b | isBoolean b | isNull b | isPresent b | isNumeric b | isString b => .bool b
  | stringEquals s => .str s
  | numericEquals x | numericGreaterThan x | numericGreaterThanEquals x | numericLessThan x
  | numericLessThanEquals x => .ofFloat x

def reader? : String → Option (Json → Option Test)
  | "BooleanEquals" => some fun j => j.bool?.map booleanEquals
  | "StringEquals" => some fun j => j.string?.map stringEquals
  | "NumericEquals" => some fun j => j.float?.map numericEquals
  | "NumericGreaterThan" => some fun j => j.float?.map numericGreaterThan
  | "NumericGreaterThanEquals" => some fun j => j.float?.map numericGreaterThanEquals
  | "NumericLessThan" => some fun j => j.float?.map numericLessThan
  | "NumericLessThanEquals" => some fun j => j.float?.map numericLessThanEquals
  | "IsBoolean" => some fun j => j.bool?.map isBoolean
  | "IsNull" => some fun j => j.bool?.map isNull
  | "IsPresent" => some fun j => j.bool?.map isPresent
  | "IsNumeric" => some fun j => j.bool?.map isNumeric
  | "IsString" => some fun j => j.bool?.map isString
  | _ => none

end Test

namespace Predicate

/-- The fields of a predicate, as far as they have a value. -/
structure Parts where
  variableName : Option String := none
  all : Option (List Predicate) := none
  any : Option (List Predicate) := none
  inner : Option Predicate := none
  tests : List Test := []

/-- The fields of the array form, in order. -/
def fields : List String :=
  ["Variable", "And", "Or", "Not", "BooleanEquals", "StringEquals", "NumericEquals",
    "NumericGreaterThan", "NumericGreaterThanEquals", "NumericLessThan", "NumericLessThanEquals",
    "IsBoolean", "IsNull", "IsPresent", "IsNumeric", "IsString"]

/-- The one predicate that some parts amount to. -/
def ofParts (p : Parts) : Except Misreading Predicate :=
  if p.all.any List.isEmpty then .error .emptyAnd
  else if p.any.any List.isEmpty then .error .emptyOr
  else if p.variableName.isNone && !p.tests.isEmpty then .error .noVariable
  else
    let combined := (p.all.map and).toList ++ (p.any.map or).toList ++ (p.inner.map not).toList
    match combined ++ p.tests.map (test (p.variableName.getD "")) with
    | [one] => .ok one
    | [] => .error .noTest
    | several => .error (.severalTests several.length)

mutual
def ofJson : Json → Except Misreading Predicate
  | .obj members => do ofParts (← partsOfMembers members)
  | .arr items => do
    let parts ← partsOfItems fields items
    ofParts parts
  | _ => .error .shape

/-- Reads the parts of a predicate from the members of an object. -/
def partsOfMembers : List (String × Json) → Except Misreading Parts
  | [] => .ok {}
  | (key, value) :: members => do
    let add ← part key value
    return add (← partsOfMembers members)

/-- Reads the parts of a predicate from items in the order of its fields. -/
def partsOfItems : List String → List Json → Except Misreading Parts
  | _, [] => .ok {}
  | [], _ :: _ => .error .shape
  | key :: keys, value :: items => do
    let add ← part key value
    return add (← partsOfItems keys items)

/-- Reads what one member adds to the parts; a member that is unknown or null adds nothing. -/
def part (key : String) (value : Json) : Except Misreading (Parts → Parts) :=
  if key = "And" then do
    let ps ← listOrNull value
    return fun r => { r with all := ps }
  else if key = "Or" then do
    let ps ← listOrNull value
    return fun r => { r with any := ps }
  else if key = "Not" then do
    let p ← orNull value
    return fun r => { r with inner := p }
  else if key = "Variable" then do
    let name ← Misreading.orNull Json.string? value
    return fun r => { r with variableName := name }
  else
    match Test.reader? key with
    | some read => do
      let t ← Misreading.orNull read value
      return fun r => { r with tests := t.toList ++ r.tests }
    | none => .ok id

def orNull : Json → Except Misreading (Option Predicate)
  | .null => .ok none
  | j => do return some (← ofJson j)

def listOrNull : Json → Except Misreading (Option (List Predicate))
  | .null => .ok none
  | .arr items => do return some (← ofJsonAll items)
  | _ => .error .shape

def ofJsonAll : List Json → Except Misreading (List Predicate)
  | [] => .ok []
  | j :: js => do
    let p ← ofJson j
    return p :: (← ofJsonAll js)
end

mutual
/-- The members of a predicate; the key of every test comes before `Variable`. -/
def toMembers : Predicate → Members Json
  | .and ps => [("And", .arr (toJsonAll ps))]
  | .or ps => [("Or", .arr (toJsonAll ps))]
  | .not p => [("Not", .obj (toMembers p))]
  | .test variableName t => [(t.key, t.toJson), ("Variable", .str variableName)]

def toJsonAll : List Predicate → List Json
  | [] => []
  | p :: ps => .obj (toMembers p) :: toJsonAll ps
end

def toJson (p : Predicate) : Json := .obj p.toMembers

end Predicate
end ModelActions
