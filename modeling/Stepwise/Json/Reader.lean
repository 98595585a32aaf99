import Stepwise.Json.Basic
import Stepwise.Text.Character

/-!
# Reading JSON text

`Json.read?` reads a whole text as one value. An integer literal from `-2 ^ 63` to `2 ^ 64 - 1`
stays an integer; `-0` and every other number is a double, made of at most sixty-four bits of
digits and one multiplication or division by a power of ten. Arrays and objects may be nested
up to 127 levels.
-/

namespace Stepwise.Json

/-- What is left to read after a value. -/
abbrev Rest := List Char

/-- Drops the blanks between tokens. -/
def skipBlanks : Rest → Rest :=
  List.dropWhile (fun c => c == ' ' || c == '\n' || c == '\t' || c == '\r')

/-- The value of a digit. -/
def digitValue (c : Char) : Nat := c.toNat - '0'.toNat

/-- Reads a hexadecimal digit. -/
def hexDigit? (c : Char) : Option Nat :=
  if '0' ≤ c && c ≤ '9' then some (c.toNat - 48)
  else if 'a' ≤ c && c ≤ 'f' then some (c.toNat - 87)
  else if 'A' ≤ c && c ≤ 'F' then some (c.toNat - 55)
  else none

/-- Reads the four hexadecimal digits of an escape. -/
def fourHex? : Rest → Option (Nat × Rest)
  | a :: b :: c :: d :: rest => do
    let n := (← hexDigit? a) * 4096 + (← hexDigit? b) * 256 + (← hexDigit? c) * 16 + (← hexDigit? d)
    return (n, rest)
  | _ => none

/-- The powers of ten that are doubles. -/
def powerOfTen (n : Nat) : Float := Decimal.toFloat false 1 n

/-- A number of `significand * 10 ^ exponent`, computed with one rounding for the digits and one
for the power of ten; none when it is too large. -/
def scaled? (negative : Bool) (significand : Nat) (exponent : Int) : Option Float :=
  let start := intToFloat significand
  let value? : Option Float :=
    if exponent.natAbs ≤ 308 then
      if 0 ≤ exponent then
        let x := start * powerOfTen exponent.toNat
        if x.isInf then none else some x
      else some (start / powerOfTen (-exponent).toNat)
    else if start == 0 then some start
    else if 0 ≤ exponent then none
    else if exponent < -1000 then some 0
    else
      let x := start / powerOfTen 308
      if (exponent + 308).natAbs ≤ 308 then some (x / powerOfTen (-(exponent + 308)).toNat)
      else some (x / powerOfTen 308 / powerOfTen (-(exponent + 616)).toNat)
  value?.map (fun x => if negative then -x else x)

/-- Whether a further digit would take the significand past sixty-four bits. -/
def overflows (significand : Nat) (digit : Nat) : Bool := UInt64.size ≤ significand * 10 + digit

/-- Takes the digits at the front. -/
def spanDigits (cs : Rest) :
    List Char × Rest := (cs.takeWhile Text.isDigit, cs.dropWhile Text.isDigit)

/-- Adds digits to a significand until one does not fit, and counts those added. -/
def addDigits : List Char → (significand count : Nat) → Nat × Nat
  | [], significand, count => (significand, count)
  | c :: rest, significand, count =>
    if overflows significand (digitValue c) then (significand, count)
    else addDigits rest (significand * 10 + digitValue c) (count + 1)

/-- Reads the exponent of a number, if there is one. -/
def exponent? (negative : Bool) (significand : Nat) (start : Int) (cs : Rest) :
    Option (Float × Rest) :=
  match cs with
  | e :: rest =>
    if e == 'e' || e == 'E' then
      let (minus, rest) := match rest with
        | '+' :: r => (false, r)
        | '-' :: r => (true, r)
        | r => (false, r)
      let (digits, rest) := spanDigits rest
      if digits.isEmpty then none
      else
        let n := digits.foldl (fun n c => n * 10 + digitValue c) 0
        if n < 2147483648 then
          (scaled? negative significand (if minus then start - n else start + n)).map (·, rest)
        else if significand ≠ 0 ∧ ¬ minus then none
        else some (if negative then -0.0 else 0.0, rest)
    else (scaled? negative significand start).map (·, cs)
  | [] => (scaled? negative significand start).map (·, [])

/-- Reads the digits after a point, and the exponent. -/
def fraction? (negative : Bool) (significand : Nat) (start : Int) (cs : Rest) :
    Option (Float × Rest) :=
  let (digits, rest) := spanDigits cs
  if digits.isEmpty then none
  else
    let (significand, count) := addDigits digits significand 0
    exponent? negative significand (start - count) rest

/-- Reads a number. -/
def number (cs : Rest) : Option (Json × Rest) :=
  let (negative, cs) := match cs with
    | '-' :: rest => (true, rest)
    | rest => (false, rest)
  let (digits, rest) := spanDigits cs
  if digits.isEmpty ∨ (digits.head? = some '0' ∧ 1 < digits.length) then none
  else
    let (significand, count) := addDigits digits 0 0
    let dropped : Int := digits.length - count
    match rest with
    | '.' :: more => (fraction? negative significand dropped more).map (fun (x, r) => (.float x, r))
    | c :: _ =>
      if c == 'e' || c == 'E' then
        (exponent? negative significand dropped rest).map (fun (x, r) => (.float x, r))
      else whole negative significand dropped rest
    | [] => whole negative significand dropped rest
where
  /-- An integer if it fits, else a double. -/
  whole (negative : Bool) (significand : Nat) (dropped : Int) (rest : Rest) : Option (Json × Rest) :=
    if dropped ≠ 0 then (scaled? negative significand dropped).map (fun x => (.float x, rest))
    else if !negative then some (.int significand, rest)
    else if significand = 0 ∨ signedBound < significand then
      some (.float (-(intToFloat significand)), rest)
    else some (.int (-significand), rest)

/-- Reads the rest of a string, after its opening quote; `done` holds its characters, last first. -/
def stringTail : (fuel : Nat) → (done : List Char) → Rest → Option (String × Rest)
  | 0, _, _ => none
  | _, _, [] => none
  | fuel + 1, done, c :: rest =>
    if c == '"' then some (String.ofList done.reverse, rest)
    else if c == '\\' then
      match rest with
      | '"' :: r => stringTail fuel ('"' :: done) r
      | '\\' :: r => stringTail fuel ('\\' :: done) r
      | '/' :: r => stringTail fuel ('/' :: done) r
      | 'b' :: r => stringTail fuel ('\x08' :: done) r
      | 'f' :: r => stringTail fuel ('\x0c' :: done) r
      | 'n' :: r => stringTail fuel ('\n' :: done) r
      | 'r' :: r => stringTail fuel ('\r' :: done) r
      | 't' :: r => stringTail fuel ('\t' :: done) r
      | 'u' :: r =>
        match fourHex? r with
        | none => none
        | some (n, r) =>
          if 0xDC00 ≤ n ∧ n ≤ 0xDFFF then none
          else if 0xD800 ≤ n ∧ n ≤ 0xDBFF then
            match r with
            | '\\' :: 'u' :: r =>
              match fourHex? r with
              | none => none
              | some (m, r) =>
                if 0xDC00 ≤ m ∧ m ≤ 0xDFFF then
                  stringTail fuel (Char.ofNat (0x10000 + (n - 0xD800) * 0x400 + (m - 0xDC00)) :: done) r
                else none
            | _ => none
          else stringTail fuel (Char.ofNat n :: done) r
      | _ => none
    else if c.toNat < 0x20 then none
    else stringTail fuel (c :: done) rest

mutual

/-- Reads a value; `depth` is how many levels may still be opened. -/
def value : (fuel depth : Nat) → Rest → Option (Json × Rest)
  | 0, _, _ => none
  | fuel + 1, depth, cs =>
    match skipBlanks cs with
    | 'n' :: 'u' :: 'l' :: 'l' :: rest => some (.null, rest)
    | 't' :: 'r' :: 'u' :: 'e' :: rest => some (.bool true, rest)
    | 'f' :: 'a' :: 'l' :: 's' :: 'e' :: rest => some (.bool false, rest)
    | '"' :: rest => (stringTail (rest.length + 1) [] rest).map (fun (s, r) => (.str s, r))
    | '[' :: rest =>
      if depth = 0 then none
      else
        match skipBlanks rest with
        | ']' :: rest => some (.arr [], rest)
        | rest => items fuel (depth - 1) [] rest
    | '\x7b' :: rest =>
      if depth = 0 then none
      else
        match skipBlanks rest with
        | '\x7d' :: rest => some (.obj [], rest)
        | rest => members fuel (depth - 1) [] rest
    | rest => number rest

/-- Reads the items of an array, at least one; `done` holds those read, last first. -/
def items : (fuel depth : Nat) → (done : List Json) → Rest → Option (Json × Rest)
  | 0, _, _, _ => none
  | fuel + 1, depth, done, cs =>
    match value fuel depth cs with
    | none => none
    | some (item, rest) =>
      match skipBlanks rest with
      | ',' :: rest => items fuel depth (item :: done) rest
      | ']' :: rest => some (.arr (item :: done).reverse, rest)
      | _ => none

/-- Reads the members of an object, at least one. -/
def members : (fuel depth : Nat) → (done : List (String × Json)) → Rest → Option (Json × Rest)
  | 0, _, _, _ => none
  | fuel + 1, depth, done, cs =>
    match skipBlanks cs with
    | '"' :: rest =>
      match stringTail (rest.length + 1) [] rest with
      | none => none
      | some (key, rest) =>
        match skipBlanks rest with
        | ':' :: rest =>
          match value fuel depth rest with
          | none => none
          | some (item, rest) =>
            match skipBlanks rest with
            | ',' :: rest => members fuel depth ((key, item) :: done) rest
            | '\x7d' :: rest => some (ofMembers ((key, item) :: done).reverse, rest)
            | _ => none
        | _ => none
    | _ => none

end

/-- Reads a whole text as one value. -/
def read? (text : String) : Option Json :=
  let cs := text.toList
  match value (2 * cs.length + 2) 127 cs with
  | some (json, rest) => if (skipBlanks rest).isEmpty then some json else none
  | none => none

end Stepwise.Json
