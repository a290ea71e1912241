import ModelActions.Decimal.Shortest
import ModelActions.Json.Basic

/-!
# Text of JSON values

Compact JSON: no blanks, members in order, the escapes that JSON requires and no others. A float is
written with its shortest digits and always looks like one: `1.0`, `0.1`, `1e+16`, `1e-7`.
-/
namespace ModelActions

/-- Where a decimal is written positionally, and how its exponent is written elsewhere. -/
structure FloatLayout where
  /-- The most digits before the point. -/
  whole : Nat
  /-- The most zeros between the point and the first digit. -/
  zeros : Nat
  /-- Stands before an exponent that is not negative. -/
  plus : String

/-- Sixteen digits before the point, four zeros after it, and a sign before every exponent. -/
def Json.floatLayout : FloatLayout := ⟨16, 4, "+"⟩

/-- A positive decimal: positional where the layout allows, else with an exponent. -/
def FloatLayout.write (layout : FloatLayout) (s : Decimal.Scientific) : String :=
  let digits := (Nat.repr s.digits).toList
  let point : Int := digits.length + s.exponent
  let zeros (n : Nat) : List Char := List.replicate n '0'
  let chars : List Char :=
    if 0 < point ∧ point ≤ layout.whole then
      if 0 ≤ s.exponent then digits ++ zeros s.exponent.toNat ++ ['.', '0']
      else digits.take point.toNat ++ '.' :: digits.drop point.toNat
    else if point ≤ 0 ∧ -point ≤ layout.zeros then
      '0' :: '.' :: zeros (-point).toNat ++ digits
    else
      let fraction := match digits with
        | d :: d' :: ds => d :: '.' :: d' :: ds
        | ds => ds
      let exponent := point - 1
      fraction ++ 'e' :: ((if 0 ≤ exponent then layout.plus else "") ++ toString exponent).toList
  String.ofList chars

/-- The weight of the sign among the bits of a float. -/
def signBit : Nat := 0x8000000000000000

def Json.floatText (x : Float) : String :=
  let sign := if x.toBits.toNat < signBit then "" else "-"
  sign ++ if x == 0 then "0.0" else Json.floatLayout.write (Decimal.shortest x)

def Json.hexDigit (n : Nat) : Char := (Nat.toDigits 16 (n % 16)).headD '0'

def Json.escape (c : Char) : List Char :=
  if c = '"' then ['\\', '"']
  else if c = '\\' then ['\\', '\\']
  else if c = '\n' then ['\\', 'n']
  else if c = '\t' then ['\\', 't']
  else if c = '\r' then ['\\', 'r']
  else if c.toNat = 8 then ['\\', 'b']
  else if c.toNat = 12 then ['\\', 'f']
  else if c.toNat < 32 then
    ['\\', 'u', '0', '0', Json.hexDigit (c.toNat / 16), Json.hexDigit c.toNat]
  else [c]

def Json.quote (s : String) : String :=
  String.ofList ('"' :: s.toList.flatMap Json.escape ++ ['"'])

namespace Json

mutual
def text : Json → String
  | .null => "null"
  | .bool b => if b then "true" else "false"
  | .int n => toString n
  | .float x _ => floatText x
  | .str s => quote s
  | .arr items => "[" ++ ",".intercalate (itemTexts items) ++ "]"
  | .obj members => "\x7b" ++ ",".intercalate (memberTexts members) ++ "\x7d"

def itemTexts : List Json → List String
  | [] => []
  | j :: js => text j :: itemTexts js

def memberTexts : List (String × Json) → List String
  | [] => []
  | (k, j) :: ms => (quote k ++ ":" ++ text j) :: memberTexts ms
end

example : text (.ofFloat 1e16) = "1e+16" := by decide +kernel
example : text (.ofFloat 1) = "1.0" := by decide +kernel
example : text (.ofFloat (-0.0)) = "-0.0" := by decide +kernel
example : text (.ofFloat 0.00001) = "0.00001" := by decide +kernel

end Json
end ModelActions
