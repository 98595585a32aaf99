import Stepwise.Json.Basic
import Stepwise.Decimal.Layout
import Stepwise.Text.Quoted

/-!
# JSON text

Values as text, on one line or indented by two blanks a level. In a string only the quote, the
backslash and control characters are escaped, and a number that is not finite is written as
`null`.
-/

namespace Stepwise.Json

/-- One character of a JSON string. -/
def escapeChar (c : Char) : List Char :=
  match c with
  | '"' => ['\\', '"']
  | '\\' => ['\\', '\\']
  | '\x08' => ['\\', 'b']
  | '\x0c' => ['\\', 'f']
  | '\n' => ['\\', 'n']
  | '\r' => ['\\', 'r']
  | '\t' => ['\\', 't']
  | c =>
    if c.toNat < 0x20 then
      ['\\', 'u', '0', '0'] ++ (if c.toNat < 0x10 then ['0'] else []) ++ Text.hex c.toNat
    else [c]

/-- A JSON string. -/
def quoted (s : String) : String :=
  if s.toList.any (fun c => c == '"' || c == '\\' || c.toNat < 0x20) then
    String.ofList (['"'] ++ s.toList.flatMap escapeChar ++ ['"'])
  else "\"" ++ s ++ "\""

/-- A JSON number. -/
def numberText (x : Float) : String :=
  if x.isFinite then Decimal.json.render x else "null"

mutual

/-- A value on one line, without blanks. -/
def compact : Json → String
  | .null => "null"
  | .bool b => if b then "true" else "false"
  | .int n => toString n
  | .float x => numberText x
  | .str s => quoted s
  | .arr items => "[" ++ ",".intercalate (compactItems items) ++ "]"
  | .obj members => "\x7b" ++ ",".intercalate (compactMembers members) ++ "\x7d"

/-- The items of a list, each without blanks. -/
def compactItems : List Json → List String
  | [] => []
  | a :: rest => compact a :: compactItems rest

/-- The members of an object, each without blanks. -/
def compactMembers : List (String × Json) → List String
  | [] => []
  | (k, a) :: rest => (quoted k ++ ":" ++ compact a) :: compactMembers rest

end

/-- A line break and the blanks of a level. -/
def newline (level : Nat) : String := "\n" ++ String.ofList (List.replicate (2 * level) ' ')

mutual

/-- A value over several lines; empty arrays and objects stay on one. -/
def pretty (level : Nat) : Json → String
  | .arr [] => "[]"
  | .obj [] => "\x7b\x7d"
  | .arr items => "[" ++ ",".intercalate (prettyItems (level + 1) items) ++ newline level ++ "]"
  | .obj members =>
    "\x7b" ++ ",".intercalate (prettyMembers (level + 1) members) ++ newline level ++ "\x7d"
  | .null => "null"
  | .bool b => if b then "true" else "false"
  | .int n => toString n
  | .float x => numberText x
  | .str s => quoted s

/-- The items of a list, each on lines of its own. -/
def prettyItems (level : Nat) : List Json → List String
  | [] => []
  | a :: rest => (newline level ++ pretty level a) :: prettyItems level rest

/-- The members of an object, each on lines of its own. -/
def prettyMembers (level : Nat) : List (String × Json) → List String
  | [] => []
  | (k, a) :: rest =>
    (newline level ++ quoted k ++ ": " ++ pretty level a) :: prettyMembers level rest

end

end Stepwise.Json
