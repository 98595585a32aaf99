import Stepwise.Text.Character
import Stepwise.Width

/-!
# Timestamps

A point in time as seconds since the start of 1970 in UTC, and the nanoseconds past them. A leap
second has a second's worth of nanoseconds more than any other, so it comes after the second
before it and before the next. The text is a date, `T`, a time of day and the offset from UTC;
times are written in UTC, with as many groups of three decimals as they need.
-/

namespace Stepwise

/-- A point in time. -/
structure Timestamp where
  seconds : Int
  nanos : Nat
deriving DecidableEq, Repr

namespace Timestamp

/-- The order of time. -/
def isBefore (a b : Timestamp) : Bool :=
  a.seconds < b.seconds || (a.seconds = b.seconds && a.nanos < b.nanos)

/-- The days from the start of 1970 to a date of the Gregorian calendar. Years begin with March
here, so that a leap day is the last day of its year. -/
def daysOfDate (year : Int) (month day : Nat) : Int :=
  let y := if month ≤ 2 then year - 1 else year
  let m := if month ≤ 2 then month + 9 else month - 3
  y * 365 + y / 4 - y / 100 + y / 400 + (153 * m + 2) / 5 + day - 719469

/-- The date of a day, counted from the start of 1970: year, month and day. -/
def dateOfDays (days : Int) : Int × Nat × Nat :=
  let shifted := days + 719468
  let era := shifted / 146097
  let dayOfEra := (shifted - era * 146097).toNat
  let yearOfEra := (dayOfEra - dayOfEra / 1460 + dayOfEra / 36524 - dayOfEra / 146096) / 365
  let dayOfYear := dayOfEra - (365 * yearOfEra + yearOfEra / 4 - yearOfEra / 100)
  let m := (5 * dayOfYear + 2) / 153
  let day := dayOfYear - (153 * m + 2) / 5 + 1
  let month := if m < 10 then m + 3 else m - 9
  (era * 400 + yearOfEra + (if month ≤ 2 then 1 else 0), month, day)

/-- Whether a year has a leap day. -/
def isLeapYear (year : Int) : Bool := year % 4 = 0 && (year % 100 ≠ 0 || year % 400 = 0)

/-- The number of days of a month. -/
def daysOfMonth (year : Int) (month : Nat) : Nat :=
  if month = 2 then (if isLeapYear year then 29 else 28)
  else if month = 4 ∨ month = 6 ∨ month = 9 ∨ month = 11 then 30 else 31

/-- The years that can be told. -/
def leastYear : Int := -262143

/-- The last year of the calendar. -/
def greatestYear : Int := 262142

/-- A number with at least so many digits. -/
def padded (width n : Nat) : String :=
  let text := toString n
  String.ofList (List.replicate (width - text.length) '0') ++ text

/-- A year in four digits, with a sign if it takes more or is before the year nought. -/
def yearText (year : Int) : String :=
  if 0 ≤ year ∧ year ≤ 9999 then padded 4 year.toNat
  else (if year < 0 then "-" else "+") ++ padded 4 year.natAbs

/-- The fraction of a second, in groups of three digits. -/
def fractionText (nanos : Nat) : String :=
  if nanos = 0 then ""
  else if nanos % nanosPerMilli = 0 then "." ++ padded 3 (nanos / nanosPerMilli)
  else if nanos % 1000 = 0 then "." ++ padded 6 (nanos / 1000)
  else "." ++ padded 9 nanos

/-- The text of a point in time. -/
def text (t : Timestamp) : String :=
  let days := t.seconds / 86400
  let second := (t.seconds - days * 86400).toNat
  let (year, month, day) := dateOfDays days
  let leap := t.nanos / nanosPerSecond
  yearText year ++ "-" ++ padded 2 month ++ "-" ++ padded 2 day ++ "T"
    ++ padded 2 (second / 3600) ++ ":" ++ padded 2 (second / 60 % 60) ++ ":"
    ++ padded 2 (second % 60 + leap) ++ fractionText (t.nanos % nanosPerSecond) ++ "Z"

/-- What is left of a text without the blanks in front. -/
def skipBlanks (cs : List Char) : List Char := cs.dropWhile Text.isBlank

/-- Reads a number of one to `width` digits, perhaps after blanks. -/
def number? (width : Nat) (cs : List Char) : Option (Nat × List Char) :=
  let cs := skipBlanks cs
  let digits := (cs.take width).takeWhile Text.isDigit
  if digits.isEmpty then none else some (Text.digitsValue digits, cs.drop digits.length)

/-- Reads a year, which may have a sign, and then any number of digits. -/
def year? (cs : List Char) : Option (Int × List Char) :=
  match skipBlanks cs with
  | '-' :: rest => do
    let digits := rest.takeWhile Text.isDigit
    guard (!digits.isEmpty)
    return (-(Text.digitsValue digits : Int), rest.drop digits.length)
  | '+' :: rest => do
    let digits := rest.takeWhile Text.isDigit
    guard (!digits.isEmpty)
    return ((Text.digitsValue digits : Int), rest.drop digits.length)
  | rest => do
    let (n, rest) ← number? 4 rest
    return ((n : Int), rest)

/-- Reads a mark, perhaps after blanks. -/
def mark? (c : Char) (cs : List Char) : Option (List Char) :=
  match skipBlanks cs with
  | d :: rest => if d = c then some rest else none
  | [] => none

/-- Reads the fraction of a second, of which nine digits count. -/
def fraction? (cs : List Char) : Option (Nat × List Char) :=
  match cs with
  | '.' :: rest => do
    let digits := rest.takeWhile Text.isDigit
    guard (!digits.isEmpty)
    let kept := digits.take 9
    return (Text.digitsValue kept * Nat.pow 10 (9 - kept.length), rest.drop digits.length)
  | _ => some (0, cs)

/-- Reads the offset from UTC in seconds: `Z`, `UTC`, or a sign, hours and minutes. -/
def offset? (cs : List Char) : Option (Int × List Char) :=
  match skipBlanks cs with
  | 'Z' :: rest => some (0, rest)
  | 'z' :: rest => some (0, rest)
  | u :: t :: c :: rest =>
    if (u = 'U' ∨ u = 'u') ∧ (t = 'T' ∨ t = 't') ∧ (c = 'C' ∨ c = 'c') then some (0, rest)
    else do
      guard (u = '+' ∨ u = '-' ∨ u = '−')
      guard (Text.isDigit t ∧ Text.isDigit c)
      let hours := Text.digitsValue [t, c]
      match rest.dropWhile (fun x => x == ':' || Text.isBlank x) with
      | m :: n :: rest =>
        guard (Text.isDigit m ∧ Text.isDigit n)
        let minutes := Text.digitsValue [m, n]
        guard (minutes < 60 ∧ hours < 24)
        let seconds : Int := hours * 3600 + minutes * 60
        return (if u = '+' then seconds else -seconds, rest)
      | _ => none
  | _ => none

/-- Reads a point in time. -/
def read? (source : String) : Option Timestamp := do
  let (year, cs) ← year? source.toList
  let cs ← mark? '-' cs
  let (month, cs) ← number? 2 cs
  let cs ← mark? '-' cs
  let (day, cs) ← number? 2 cs
  guard (1 ≤ month ∧ month ≤ 12 ∧ 1 ≤ day)
  guard (leastYear ≤ year ∧ year ≤ greatestYear)
  guard (day ≤ daysOfMonth year month)
  let cs ← match cs with
    | c :: rest => if c = 'T' ∨ c = 't' ∨ c = ' ' then some rest else none
    | [] => none
  let (hour, cs) ← number? 2 cs
  let cs ← mark? ':' cs
  let (minute, cs) ← number? 2 cs
  let cs ← mark? ':' cs
  let (second, cs) ← number? 2 cs
  guard (hour < 24 ∧ minute < 60 ∧ second ≤ 60)
  let (nanos, cs) ← fraction? cs
  let (offset, cs) ← offset? cs
  guard ((skipBlanks cs).isEmpty)
  let leap := if second = 60 then 1 else 0
  let ofDay : Nat := hour * 3600 + minute * 60 + (second - leap)
  let seconds := daysOfDate year month day * 86400 + ofDay - offset
  return ⟨seconds, nanos + leap * nanosPerSecond⟩

example : (Timestamp.mk 951868800 0).text = "2000-03-01T00:00:00Z" := by decide +kernel

end Timestamp

end Stepwise
