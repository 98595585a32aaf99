import Stepwise.Decimal.Shortest

/-!
# Layouts of decimals

How a double is written: where positional notation ends, whether an integral value keeps
`.0`, and what stands before an exponent. The digits are always the shortest ones.
-/

namespace Stepwise.Decimal

/-- The decisions of a number format. A double whose first digit stands for `10 ^ k` is written
positionally when `positional k`. -/
structure Layout where
  positional : Int → Bool
  pointZero : Bool
  plus : String
  nan : String
  infinity : String

/-- A run of zeros. -/
def zeros (n : Nat) : String := String.ofList (List.replicate n '0')

/-- Digits without an exponent. -/
def Digits.positionally (d : Digits) (pointZero : Bool) : String :=
  let text := toString d.coefficient
  if 0 ≤ d.exponent then
    text ++ zeros d.exponent.toNat ++ (if pointZero then ".0" else "")
  else
    let places := (-d.exponent).toNat
    if places < text.length then
      (text.take (text.length - places)).copy ++ "." ++ (text.drop (text.length - places)).copy
    else "0." ++ zeros (places - text.length) ++ text

/-- The power of ten of the first digit. -/
def Digits.scale (d : Digits) : Int := d.exponent + digitCount d.coefficient - 1

/-- Digits with one digit before the point, and an exponent. -/
def Digits.scientifically (d : Digits) (plus : String) : String :=
  let text := toString d.coefficient
  let first := (text.take 1).copy
  let rest := (text.drop 1).copy
  let e := d.scale
  first ++ (if rest = "" then "" else "." ++ rest) ++ "e" ++
    (if e < 0 then "-" ++ toString (-e).toNat else plus ++ toString e.toNat)

/-- The text of a double. -/
def Layout.render (layout : Layout) (x : Float) : String :=
  match Binary.ofFloat? x with
  | none =>
    if x.isNaN then layout.nan
    else if x < 0 then "-" ++ layout.infinity else layout.infinity
  | some b =>
    let d := shortest b
    let sign := if b.negative then "-" else ""
    if d.coefficient = 0 ∨ layout.positional d.scale then
      sign ++ d.positionally layout.pointZero
    else sign ++ d.scientifically layout.plus

/-- Numbers in JSON text: positional from `1e-5` up to `1e16`, and a signed exponent. Other values
than finite ones have no number. -/
def json : Layout := ⟨fun k => -5 ≤ k && k < 16, true, "+", "null", "null"⟩

/-- Numbers in messages about tokens: positional from `1e-4` up to `1e16`. -/
def token : Layout := ⟨fun k => -4 ≤ k && k < 16, true, "", "NaN", "inf"⟩

/-- Numbers in running text: never with an exponent, and without a needless point. -/
def plain : Layout := ⟨fun _ => true, false, "", "NaN", "inf"⟩

/-- Numbers in settings files: never with an exponent, always with a point. -/
def settings : Layout := ⟨fun _ => true, true, "", "nan", "inf"⟩

/-- A number that is not negative with a fixed number of places, rounded to the nearest and halves
to the even one. -/
def fixed (places : Nat) (x : Float) : String :=
  match Binary.ofFloat? x with
  | none => plain.render x
  | some b =>
    let text := toString (roundShifted (b.mantissa * Nat.pow 10 places) 1 b.exponent)
    let text := zeros (places + 1 - text.length) ++ text
    (text.take (text.length - places)).copy ++ "." ++ (text.drop (text.length - places)).copy

example : json.render 1e16 = "1e+16" := by decide +kernel
example : json.render 0.00001 = "0.00001" := by decide +kernel

end Stepwise.Decimal
