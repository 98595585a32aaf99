import Stepwise.Decimal.Binary
import Stepwise.Text.Character

/-!
# Reading decimals

`Decimal.read?` reads a decimal as the double nearest to it: digits with perhaps a point among
them or at either end, and perhaps an exponent. `inf`, `infinity` and `nan` are numbers too, in
letters of either case. Each may have a sign.
-/

namespace Stepwise.Decimal

/-- The sign at the front, if there is one, and what follows. -/
def signed (cs : List Char) : Bool × List Char :=
  match cs with
  | '-' :: rest => (true, rest)
  | '+' :: rest => (false, rest)
  | rest => (false, rest)

/-- The digits at the front, and what follows. -/
def spanDigits (cs : List Char) : List Char × List Char :=
  (cs.takeWhile Text.isDigit, cs.dropWhile Text.isDigit)

/-- Reads an exponent, which is zero where there is none. -/
def exponent? (cs : List Char) : Option Int :=
  match cs with
  | [] => some 0
  | e :: rest =>
    let (negative, rest) := signed rest
    let (digits, rest) := spanDigits rest
    if (e == 'e' || e == 'E') && !digits.isEmpty && rest.isEmpty then
      let n : Int := Text.digitsValue digits
      some (if negative then -n else n)
    else none

/-- Reads digits with a point and an exponent. -/
def unsigned? (negative : Bool) (cs : List Char) : Option Float :=
  let (whole, rest) := spanDigits cs
  let (part, rest) := match rest with
    | '.' :: rest => spanDigits rest
    | rest => ([], rest)
  if whole.isEmpty && part.isEmpty then none
  else
    (exponent? rest).map (fun e =>
      toFloat negative (Text.digitsValue (whole ++ part)) (e - part.length))

/-- The infinity of a sign. -/
def infinity (negative : Bool) : Float := nearest negative (Nat.pow 10 310) 1

/-- The number that is none. -/
def notNumber : Float := Float.ofBits 0x7ff8000000000000

/-- Reads a decimal. -/
def read? (text : String) : Option Float :=
  let (negative, cs) := signed text.toList
  let word := String.ofList (cs.map Char.toLower)
  if word = "inf" ∨ word = "infinity" then some (infinity negative)
  else if word = "nan" then some notNumber
  else unsigned? negative cs

end Stepwise.Decimal
