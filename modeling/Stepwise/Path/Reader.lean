import Stepwise.Fault
import Stepwise.Path.Basic
import Stepwise.Text.Character

/-!
# Reading paths

A path is a name, then names after points, places in brackets, and quoted keys in brackets. A
name of digits alone that is not the first segment is a place.
-/

namespace Stepwise.Path

open Text

/-- Why a text is no path. -/
inductive Problem where
  | empty
  | trailingPoint
  | unclosed
  | badIndex
  | unexpected
deriving DecidableEq, Repr

/-- What is told of a path that cannot be read. -/
def Problem.message : Problem → String
  | .empty => "empty path"
  | .trailingPoint => "trailing '.'"
  | .unclosed => "unclosed '['"
  | .badIndex => "index must be an integer or a quoted key"
  | .unexpected => "unexpected character"

/-- Reads a place: digits, with or without a plus sign, below `2 ^ 64`. -/
def index? (cs : List Char) : Option Nat :=
  let digits := match cs with
    | '+' :: rest => rest
    | rest => rest
  if digits.isEmpty || !digits.all isDigit then none
  else
    let n := digitsValue digits
    if n < UInt64.size then some n else none

/-- The key between two quotes of one kind. -/
def unquote? (cs : List Char) : Option (List Char) :=
  match cs with
  | q :: rest =>
    if (q == '"' || q == '\x27') && rest.getLast? == some q then some rest.dropLast else none
  | [] => none

/-- The segment between brackets. -/
def bracketed? (inner : List Char) : Option Segment :=
  match unquote? (trimmed inner) with
  | some key => some (.field (String.ofList key))
  | none => (index? (trimmed inner)).map .index

/-- The segment of a name after others. -/
def nameSegment (first : Bool) (name : List Char) : Segment :=
  if first then .field (String.ofList name)
  else match index? name with
    | some n => .index n
    | none => .field (String.ofList name)

/-- Reads segments from position `at`. `first` holds before any segment, `open` where a name may
start. -/
def segments (cs : List Char) (pos : Nat) (first opened : Bool) :
    Except (Nat × Problem) (List Segment) :=
  match cs with
  | [] => .ok []
  | c :: rest =>
    if c = '.' ∧ opened = false then
      if rest.isEmpty then .error (pos + 1, .trailingPoint)
      else segments rest (pos + 1) first true
    else if c = '[' then
      let inner := rest.takeWhile (· ≠ ']')
      match hrest : rest.dropWhile (· ≠ ']') with
      | [] => .error (pos, .unclosed)
      | _ :: after =>
        match bracketed? inner with
        | none => .error (pos, .badIndex)
        | some segment =>
          have : after.length < rest.length + 1 := by
            have h := length_dropWhile_le (fun x => decide (x ≠ ']')) rest
            rw [hrest] at h
            simp only [List.length_cons] at h
            omega
          match segments after (pos + inner.length + 2) false false with
          | .ok more => .ok (segment :: more)
          | .error e => .error e
    else if opened && isNameChar c then
      let name := c :: rest.takeWhile isNameChar
      have : (rest.dropWhile isNameChar).length < rest.length + 1 := by
        have h := length_dropWhile_le isNameChar rest
        omega
      match segments (rest.dropWhile isNameChar) (pos + name.length) false false with
      | .ok more => .ok (nameSegment first name :: more)
      | .error e => .error e
    else .error (pos, .unexpected)
termination_by cs.length

/-- Reads a path from characters without blanks at the ends. -/
def readChars (cs : List Char) : Except (Nat × Problem) (List Segment) :=
  if cs.isEmpty then .error (0, .empty) else segments cs 0 true true

/-- Reads a path, ignoring blanks at its ends. -/
def read (text : String) : Except Fault (List Segment) :=
  match readChars (trimmed text.toList) with
  | .ok path => .ok path
  | .error (position, problem) => .error (.badExpression (trim text) position problem.message)

/-- Reads a path and looks it up. -/
def resolve (scope : Scope) (text : String) : Except Fault (Option Json) :=
  (read text).map (lookup scope)

end Stepwise.Path
