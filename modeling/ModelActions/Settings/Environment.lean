import ModelActions.Settings

/-!
# Settings from the environment

Variables named `ENGINE_` and a field's name, in any case, set that field. A value is taken for a
truth value, an integer or a decimal number if it reads as one, in this order, and for text
otherwise.
-/
namespace ModelActions.Settings.Environment

inductive Setting where
  | bool (b : Bool)
  | int (n : Int)
  | float (x : Float)
  | text (s : String)

/-- A number of digits, at least one. -/
def digits? (cs : List Char) : Option Nat :=
  if cs.isEmpty || cs.any (fun c => !c.isDigit) then none
  else some (cs.foldl (fun n c => 10 * n + (c.toNat - '0'.toNat)) 0)

/-- The greatest signed integer of 64 bits; the least is one further from zero. -/
def maxInt : Nat := 0x7fffffffffffffff

/-- An integer of 64 bits with an optional sign. -/
def integer? (cs : List Char) : Option Int := do
  let n ← match cs with
    | '-' :: ds => (digits? ds).map fun n => -(n : Int)
    | '+' :: ds => (digits? ds).map fun n => (n : Int)
    | ds => (digits? ds).map fun n => (n : Int)
  if Int.negSucc maxInt ≤ n ∧ n ≤ Int.ofNat maxInt then some n else none

/-- A decimal without sign and exponent: significand and number of places after the point. -/
def fixed? (cs : List Char) : Option (Nat × Nat) :=
  let whole := cs.takeWhile (· != '.')
  let fraction := (cs.dropWhile (· != '.')).drop 1
  (digits? (whole ++ fraction)).map (·, fraction.length)

/-- The value of a decimal, or of one of the words for what is not finite. -/
def unsigned? (cs : List Char) : Option Float :=
  let word := String.ofList (cs.map Char.toLower)
  if word == "inf" || word == "infinity" then some (1.0 / 0.0)
  else if word == "nan" then some (0.0 / 0.0)
  else do
    let isExponentMark (c : Char) : Bool := c == 'e' || c == 'E'
    let (n, places) ← fixed? (cs.takeWhile fun c => !isExponentMark c)
    let exponent ← match cs.dropWhile fun c => !isExponentMark c with
      | [] => some (0 : Int)
      | _ :: '-' :: ds => (digits? ds).map fun n => -(n : Int)
      | _ :: '+' :: ds => (digits? ds).map fun n => (n : Int)
      | _ :: ds => (digits? ds).map fun n => (n : Int)
    let e := exponent - places
    return Float.ofScientific n (e < 0) (min e.natAbs 100000)

/-- A decimal number with optional sign, point and exponent. -/
def decimal? : List Char → Option Float
  | '-' :: cs => (unsigned? cs).map fun x => -x
  | '+' :: cs => unsigned? cs
  | cs => unsigned? cs

def Setting.ofString (s : String) : Setting :=
  match (s.map Char.toLower : String) with
  | "true" => .bool true
  | "false" => .bool false
  | _ =>
    match integer? s.toList with
    | some n => .int n
    | none =>
      match decimal? s.toList with
      | some x => .float x
      | none => .text s

/-- A count: truth values count as 0 and 1, decimals are rounded and kept within 64 bits. -/
def Setting.count? : Setting → Option Nat
  | .bool b => some b.toNat
  | .int n => if 0 ≤ n then some n.toNat else none
  | .float x => some x.round.toUInt64.toNat
  | .text s =>
    match (s.map Char.toLower : String) with
    | "on" | "yes" => some 1
    | "off" | "no" => some 0
    | _ => none

/-- A truth value: numbers are true unless they are zero. -/
def Setting.bool? : Setting → Option Bool
  | .bool b => some b
  | .int n => some (n != 0)
  | .float x => some (x != 0)
  | .text s =>
    match (s.map Char.toLower : String) with
    | "on" | "yes" => some true
    | "off" | "no" => some false
    | _ => none

/-- The field that a variable sets, in lower case. -/
def fieldOf? (name : String) : Option String :=
  let name := (name.map Char.toLower).toList
  let lead := "engine_".toList
  if lead.isPrefixOf name then some (String.ofList (name.drop lead.length)) else none

/-- The settings of an environment, a list of variables of which the last of a field counts. -/
def load (environment : List (String × String)) : Option Settings :=
  let r : Members Setting := Members.ofList <| environment.filterMap fun e =>
    (fieldOf? e.1).map (·, Setting.ofString e.2)
  let field {α : Type} (key : String) (read : Setting → Option α) (default : α) : Option α :=
    match r.get? key with
    | none => some default
    | some s => read s
  let d : Settings := {}
  do
    return {
      defaultPerPage := ← field "default_per_page" Setting.count? d.defaultPerPage
      maxPerPage := ← field "max_per_page" Setting.count? d.maxPerPage
      maxExpandDepth := ← field "max_expand_depth" Setting.count? d.maxExpandDepth
      eagerGraphValidation :=
        ← field "eager_graph_validation" Setting.bool? d.eagerGraphValidation
      debugTrace := ← field "debug_trace" Setting.bool? d.debugTrace }

end ModelActions.Settings.Environment
