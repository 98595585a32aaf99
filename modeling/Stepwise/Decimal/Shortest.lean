import Stepwise.Decimal.Binary

/-!
# Shortest decimals

Of all decimals that read back as a given double, `shortest` picks one with the fewest digits,
and of those the nearest to the double. On the grid of decimals with `n` digits only the two
neighbours of the double need a test: if any point of a grid reads back, one of them does.
-/

namespace Stepwise.Decimal

/-- A decimal `coefficient * 10 ^ exponent`. -/
structure Digits where
  coefficient : Nat
  exponent : Int
deriving DecidableEq, Repr

/-- The number of decimal digits. -/
def digitCount (n : Nat) : Nat := (Nat.toDigits 10 n).length

/-- The `k` with `10 ^ (k - 1) ≤ num / den < 10 ^ k`. -/
def magnitude (num den : Nat) : Int :=
  if den ≤ num then digitCount (num / den)
  else
    let k := digitCount den - digitCount num
    if den ≤ num * Nat.pow 10 k then 1 - (k : Int) else -(k : Int)

/-- The reals that round to a double, as numerators over one denominator; both ends count when
`closed`. -/
structure Interval where
  low : Nat
  value : Nat
  high : Nat
  denominator : Nat
  closed : Bool

/-- The interval of a positive double: half way to each neighbour. -/
def Interval.ofBinary (b : Binary) : Interval :=
  let up := Nat.pow 2 b.exponent.toNat
  let gap := if b.mantissa = leadingBit ∧ leastExponent < b.exponent then 1 else 2
  { low := (4 * b.mantissa - gap) * up
    value := 4 * b.mantissa * up
    high := (4 * b.mantissa + 2) * up
    denominator := 4 * Nat.pow 2 (-b.exponent).toNat
    closed := b.mantissa % 2 = 0 }

/-- Whether the decimal `coefficient * 10 ^ exponent` lies in the interval. -/
def Interval.holds (i : Interval) (coefficient : Nat) (exponent : Int) : Bool :=
  let scale := Nat.pow 10 (-exponent).toNat
  let point := coefficient * Nat.pow 10 exponent.toNat * i.denominator
  if i.closed then i.low * scale ≤ point && point ≤ i.high * scale
  else i.low * scale < point && point < i.high * scale

/-- The decimal on the grid of the powers of ten that is nearest to the value among its two
neighbours that read back, if one does. -/
def Interval.onGrid? (i : Interval) (exponent : Int) : Option Nat :=
  let num := i.value * Nat.pow 10 (-exponent).toNat
  let den := i.denominator * Nat.pow 10 exponent.toNat
  let below := num / den
  let nearer := roundHalfEven num den
  match i.holds below exponent, i.holds (below + 1) exponent with
  | true, true => some nearer
  | true, false => some below
  | false, true => some (below + 1)
  | false, false => none

/-- The first grid with a point that reads back, from `count` digits up. -/
def Interval.firstGrid (i : Interval) (top : Int) : (steps : Nat) → (count : Nat) → Digits
  | 0, count => ⟨i.value / i.denominator, top - count⟩
  | steps + 1, count =>
    match i.onGrid? (top - count) with
    | some c => ⟨c, top - count⟩
    | none => firstGrid i top steps (count + 1)

/-- Moves trailing zeros of the coefficient into the exponent. -/
def Digits.strip (d : Digits) : (steps : Nat) → Digits
  | 0 => d
  | steps + 1 =>
    if d.coefficient ≠ 0 ∧ d.coefficient % 10 = 0 then
      strip ⟨d.coefficient / 10, d.exponent + 1⟩ steps
    else d

/-- The shortest decimal of a non-negative double. -/
def shortest (b : Binary) : Digits :=
  if b.mantissa = 0 then ⟨0, 0⟩
  else
    let i := Interval.ofBinary b
    (i.firstGrid (magnitude i.value i.denominator) 20 1).strip 400

end Stepwise.Decimal
