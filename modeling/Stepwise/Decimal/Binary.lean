import Stepwise.Width

/-!
# Doubles as integers times powers of two

A finite double is an integer below `2 ^ 53` times a power of two. `Binary.ofFloat?` takes a
double apart, and `nearest` goes the other way for any fraction: it rounds to the nearest
double, and a fraction halfway between two doubles goes to the one with the even integer.
-/

namespace Stepwise.Decimal

/-- A finite double: `± mantissa * 2 ^ exponent`. -/
structure Binary where
  negative : Bool
  mantissa : Nat
  exponent : Int
deriving DecidableEq, Repr

/-- The exponent of the smallest positive double. -/
def leastExponent : Int := -1074

/-- The leading bit of the integer of a normal double: `2 ^ 52`. -/
def leadingBit : Nat := 4503599627370496

/-- Takes a double apart; infinities and not-a-numbers have no such form. -/
def Binary.ofFloat? (x : Float) : Option Binary :=
  let bits := x.toBits.toNat
  let negative := bits / signedBound == 1
  let field : Nat := bits / leadingBit % 2048
  let fraction : Nat := bits % leadingBit
  if field = 2047 then none
  else if field = 0 then some ⟨negative, fraction, leastExponent⟩
  else some ⟨negative, leadingBit + fraction, leastExponent + Int.ofNat (field - 1)⟩

/-- The integer that a double is, if it is one. -/
def integer? (x : Float) : Option Int :=
  match Binary.ofFloat? x with
  | none => none
  | some b =>
    let unit := Nat.pow 2 (-b.exponent).toNat
    if b.mantissa % unit = 0 then
      let magnitude : Nat := b.mantissa / unit * Nat.pow 2 b.exponent.toNat
      some (if b.negative then -magnitude else magnitude)
    else none

/-- A quotient rounded to the nearest integer, halves to the even one. -/
def roundHalfEven (num den : Nat) : Nat :=
  let q := num / den
  let r := num % den
  if 2 * r < den then q
  else if den < 2 * r then q + 1
  else q + q % 2

/-- A quotient of `num * 2 ^ shift` rounded as `roundHalfEven` does. -/
def roundShifted (num den : Nat) (shift : Int) : Nat :=
  if 0 ≤ shift then roundHalfEven (num * Nat.pow 2 shift.toNat) den
  else roundHalfEven num (den * Nat.pow 2 (-shift).toNat)

/-- The double nearest to `± num / den`. -/
def nearest (negative : Bool) (num den : Nat) : Float :=
  let sign := if negative then signedBound else 0
  if num = 0 then Float.ofBits (UInt64.ofNat sign)
  else
    let guess : Int := (num.log2 : Int) - (den.log2 : Int) - 52
    let exponent := max leastExponent (if roundShifted num den (-guess) < leadingBit then guess - 1 else guess)
    let mantissa := roundShifted num den (-exponent)
    let bits := mantissa + (exponent - leastExponent).toNat * leadingBit
    Float.ofBits (UInt64.ofNat (sign + min bits (2047 * leadingBit)))

/-- The double nearest to `± coefficient * 10 ^ exponent`. -/
def toFloat (negative : Bool) (coefficient : Nat) (exponent : Int) : Float :=
  let places : Int := coefficient.log2 / 3 + 1
  if coefficient = 0 ∨ exponent + places < -330 then nearest negative 0 1
  else if 310 < exponent then nearest negative (Nat.pow 10 310) 1
  else if 0 ≤ exponent then nearest negative (coefficient * Nat.pow 10 exponent.toNat) 1
  else nearest negative coefficient (Nat.pow 10 (-exponent).toNat)

end Stepwise.Decimal
