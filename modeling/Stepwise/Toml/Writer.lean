import Stepwise.Decimal.Layout
import Stepwise.Text.Quoted

/-!
# Writing settings files

How values are written in a settings file. A string is written in the first of the notations that
shows it without escapes; if none does, with escapes. A list of two or more strings has a line
for each.
-/

namespace Stepwise.Toml

/-- The notations of strings. -/
inductive Notation where
  | basic
  | literal
  | basicLines
  | literalLines
deriving DecidableEq, Repr

/-- The longest run of a character. -/
def longestRun (c : Char) (cs : List Char) : Nat :=
  (cs.foldl (fun (longest, run) d =>
    if d = c then (max longest (run + 1), run + 1) else (longest, 0)) (0, 0)).1

/-- Whether a character is a control character that no notation shows. -/
def isHidden (c : Char) : Bool := (c.toNat < 0x20 && c != '\t' && c != '\n') || c.toNat == 0x7f

/-- The notation of a string. -/
def notationOf (cs : List Char) : Notation :=
  let hidden := cs.any isHidden
  let backslash := cs.contains '\\'
  let several := cs.contains '\n'
  let singles := longestRun '\x27' cs
  let doubles := longestRun '"' cs
  if !hidden && !backslash && doubles = 0 && !several then .basic
  else if !hidden && singles = 0 && !several then .literal
  else if !hidden && !backslash && doubles ≤ 2 then .basicLines
  else if !hidden && singles ≤ 2 then .literalLines
  else if several then .basicLines
  else .basic

/-- A number in hexadecimal with four digits. -/
def fourHex (n : Nat) : List Char :=
  let digits := (Text.hex n).map Char.toUpper
  List.replicate (4 - digits.length) '0' ++ digits

/-- A character between quotes. `run` counts the quotes right before it, `most` says how many may
stand together, and line breaks stand for themselves in strings of several lines. -/
def escapeChar (several : Bool) (most run : Nat) (c : Char) : List Char :=
  match c with
  | '"' => if most ≤ run then ['\\', '"'] else ['"']
  | '\\' => ['\\', '\\']
  | '\x08' => ['\\', 'b']
  | '\t' => ['\\', 't']
  | '\n' => if several then ['\n'] else ['\\', 'n']
  | '\x0c' => ['\\', 'f']
  | '\r' => ['\\', 'r']
  | c => if isHidden c then ['\\', 'u'] ++ fourHex c.toNat else [c]

/-- The characters between quotes. An escape ends a run of quotes. -/
def escapeAll (several : Bool) (most : Nat) : (run : Nat) → List Char → List Char
  | _, [] => []
  | run, c :: rest =>
    let escaped := escapeChar several most run c
    escaped ++ escapeAll several most (if escaped == ['"'] then run + 1 else 0) rest

/-- A string. -/
def quoted (text : String) : String :=
  let cs := text.toList
  let opening := if cs.contains '\n' then "\n" else ""
  match notationOf cs with
  | .basic => "\"" ++ String.ofList (escapeAll false 0 0 cs) ++ "\""
  | .literal => "'" ++ text ++ "'"
  | .basicLines => "\"\"\"" ++ opening ++ String.ofList (escapeAll true 2 0 cs) ++ "\"\"\""
  | .literalLines => "'''" ++ opening ++ text ++ "'''"

/-- A list of strings. -/
def list (items : List String) : String :=
  match items with
  | [] => "[]"
  | [item] => "[" ++ quoted item ++ "]"
  | items => "[\n" ++ String.join (items.map (fun item => "    " ++ quoted item ++ ",\n")) ++ "]"

/-- A double. -/
def double (x : Float) : String := Decimal.settings.render x

/-- An integer; those above 63 bits cannot be written. -/
def natural? (n : Nat) : Option String := if n < signedBound then some (toString n) else none

/-- A table with the lines of its entries. -/
def table (name : String) (entries : List (String × String)) : String :=
  "[" ++ name ++ "]\n" ++ String.join (entries.map (fun (key, value) => key ++ " = " ++ value ++ "\n"))

end Stepwise.Toml
