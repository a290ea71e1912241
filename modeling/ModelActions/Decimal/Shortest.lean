/-!
# Shortest decimals

The decimal of fewest significant digits that lies closer to a given 64-bit float than to any other
one. A positive finite float is `m * 2^q`; the reals that round to it form an interval whose ends
belong to it when `m` is even. The grids of one, two, up to seventeen digits are tried in turn: if
any point of a grid lies in the interval, so does one of the two neighbours of the value on it.
-/
namespace ModelActions.Decimal

/-- A positive decimal, `digits * 10^exponent`. -/
structure Scientific where
  digits : Nat
  exponent : Int
  deriving DecidableEq, Repr

/-- A positive float, `m * 2^q`; `narrow` says that the float below it is half as far away. -/
structure Binary where
  m : Nat
  q : Int
  narrow : Bool
  deriving DecidableEq, Repr

/-- The weight of the lowest exponent bit, which is also the implicit leading bit of a significand:
the fraction field has 52 bits. -/
def leadingBit : Nat := 0x10000000000000

/-- The number of values of the exponent field, which has 11 bits. -/
def exponentCount : Nat := 0x800

/-- Significand and exponent of the absolute value of a finite float. -/
def Binary.ofFloat (x : Float) : Binary :=
  let bits := x.toBits.toNat
  let e := bits / leadingBit % exponentCount
  let f := bits % leadingBit
  if e = 0 then ⟨f, -1074, false⟩ else ⟨f + leadingBit, (e : Int) - 1075, f = 0 ∧ 1 < e⟩

/-- Compares `x * 2^(b.q - 2)`, for `x` quarters of a unit of `b`, with points `n * 10^p`: the first
is less or equal iff `x * (scales b p).1 ≤ n * (scales b p).2`. -/
def Binary.scales (b : Binary) (p : Int) : Nat × Nat :=
  (Nat.pow 2 (b.q - 2).toNat * Nat.pow 10 (-p).toNat,
    Nat.pow 10 p.toNat * Nat.pow 2 (2 - b.q).toNat)

/-- Whether `n * 10^p` rounds to `b`. -/
def Binary.covers (b : Binary) (n : Nat) (p : Int) : Bool :=
  let (a, c) := b.scales p
  let low := (4 * b.m - if b.narrow then 1 else 2) * a
  let high := (4 * b.m + 2) * a
  if b.m % 2 = 0 then low ≤ n * c && n * c ≤ high else low < n * c && n * c < high

/-- The exponent of the first significant decimal digit. -/
def Binary.magnitude (b : Binary) : Int :=
  let guess := ((b.m.log2 : Int) + b.q) * 30103 / 100000
  let (a, c) := b.scales (guess + 1)
  if c ≤ 4 * b.m * a then guess + 1 else guess

/-- The point of the grid `10^p` nearest to `b` among those that round to it; a tie goes to the even
one. -/
def Binary.onGrid (b : Binary) (p : Int) : Option Nat :=
  let (a, c) := b.scales p
  let n := 4 * b.m * a / c
  let below := 4 * b.m * a - n * c
  let above := (n + 1) * c - 4 * b.m * a
  match b.covers n p, b.covers (n + 1) p with
  | true, true =>
    some (if below < above || (below = above && n % 2 = 0) then n else n + 1)
  | true, false => some n
  | false, true => some (n + 1)
  | false, false => none

/-- The first of `k` grids with a hit, from `10^p` downwards; the value cut off where none has. -/
def Binary.search (b : Binary) : Nat → Int → Scientific
  | 0, p => ⟨4 * b.m * (b.scales p).1 / (b.scales p).2, p⟩
  | k + 1, p =>
    match b.onGrid p with
    | some n => ⟨n, p⟩
    | none => search b k (p - 1)

/-- Drops up to `k` zeros at the end. -/
def Scientific.trim : Nat → Scientific → Scientific
  | 0, s => s
  | k + 1, s => if s.digits % 10 = 0 then trim k ⟨s.digits / 10, s.exponent + 1⟩ else s

def shortest (x : Float) : Scientific :=
  let b := Binary.ofFloat x
  (b.search 17 b.magnitude).trim 17

example : shortest 0.1 = ⟨1, -1⟩ := by decide +kernel
example : shortest 1e23 = ⟨1, 23⟩ := by decide +kernel
example : shortest 5e-324 = ⟨5, -324⟩ := by decide +kernel
example : shortest 18446744073709551615 = ⟨18446744073709552, 3⟩ := by decide +kernel

end ModelActions.Decimal
