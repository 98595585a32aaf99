import Stepwise.Decimal.Reader
import Stepwise.Json.Basic
import Stepwise.Json.Reader

/-!
# What plain scalars mean

A plain scalar is null, a boolean, an integer, a double or else a text. Integers may be written
in hexadecimal, octal or binary, but not in decimal with needless zeros in front. An integer that
has too many bits to be kept, but no more than 128, is refused; a longer one is a double.
-/

namespace Stepwise.Yaml

/-- The spellings of null. -/
def isNullWord (text : String) : Bool := ["null", "Null", "NULL", "~"].contains text

/-- The boolean that a word means. -/
def bool? (text : String) : Option Bool :=
  if ["true", "True", "TRUE"].contains text then some true
  else if ["false", "False", "FALSE"].contains text then some false
  else none

/-- The number that digits of a base mean. -/
def inBase? (base : Nat) (digits : List Char) : Option Nat :=
  if digits.isEmpty then none
  else digits.foldlM (fun n c =>
    match Json.hexDigit? c with
    | some d => if d < base then some (n * base + d) else none
    | none => none) 0

/-- Whether decimal digits begin with a zero that they do not need. -/
def hasNeedlessZero (digits : List Char) : Bool :=
  digits.head? == some '0' && 1 < digits.length && digits.all Text.isDigit

/-- The number that digits with the mark of their base mean. -/
def natural? (cs : List Char) : Option Nat :=
  match cs with
  | '0' :: 'x' :: digits => inBase? 16 digits
  | '0' :: 'o' :: digits => inBase? 8 digits
  | '0' :: 'b' :: digits => inBase? 2 digits
  | digits => if hasNeedlessZero digits then none else inBase? 10 digits

/-- An integer that has a sign or none, and whether the sign is a minus. -/
def signedNatural? (text : String) : Option (Bool × Nat) :=
  let (negative, cs) := Decimal.signed text.toList
  (natural? cs).map (negative, ·)

/-- The number that a scalar means where only one without a minus will do. -/
def unsigned? (text : String) : Option Nat :=
  match signedNatural? text with
  | some (false, n) => some n
  | _ => none

/-- The double that a scalar means. -/
def double? (text : String) : Option Float :=
  if [".inf", ".Inf", ".INF", "+.inf", "+.Inf", "+.INF"].contains text then
    some (Decimal.infinity false)
  else if ["-.inf", "-.Inf", "-.INF"].contains text then some (Decimal.infinity true)
  else if [".nan", ".NaN", ".NAN"].contains text then some Decimal.notNumber
  else (Decimal.read? text).filter Float.isFinite

/-- An integer that is kept as one. -/
def kept? (negative : Bool) (n : Nat) : Option Json :=
  if negative then if n ≤ signedBound then some (.int (-n)) else none
  else if n < UInt64.size then some (.int n) else none

/-- The integer that a scalar means. -/
def int? (text : String) : Option Json :=
  (signedNatural? text).bind (fun (negative, n) => kept? negative n)

/-- What a scalar means as a number; none where it means none, and nothing where it means one
that is refused. -/
def number? (text : String) : Option (Option Json) :=
  let asDouble : Option Json :=
    if hasNeedlessZero (Decimal.signed text.toList).2 then none else (double? text).map .ofFloat
  match signedNatural? text with
  | none => some asDouble
  | some (negative, n) =>
    match kept? negative n with
    | some value => some (some value)
    | none =>
      let limit := if negative then Nat.pow 2 127 + 1 else Nat.pow 2 128
      if n < limit then none else some asDouble

/-- What a plain scalar means. -/
def plainValue? (text : String) : Option Json :=
  if text.isEmpty || isNullWord text then some .null
  else
    match bool? text with
    | some b => some (.bool b)
    | none => (number? text).map (·.getD (.str text))

end Stepwise.Yaml
