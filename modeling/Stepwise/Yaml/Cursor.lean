/-!
# Places in a text

A cursor is what is left of a text together with the place where it starts: the line, the column
and the number of characters before it. Columns decide how blocks nest, and lines and places how
far a key may reach.
-/

namespace Stepwise.Yaml

/-- A place in a text, and the characters from there on. -/
structure Cursor where
  rest : List Char
  line : Nat
  column : Nat
  index : Nat

/-- A blank within a line. -/
def isSpace (c : Char) : Bool := c == ' ' || c == '\t'

/-- The characters that end a line. -/
def isBreak (c : Char) : Bool :=
  c == '\n' || c == '\r' || c == '\u0085' || c == '\u2028' || c == '\u2029'

/-- What a line break is worth in a scalar. -/
def breakValue (c : Char) : Char := if c == '\r' || c == '\u0085' then '\n' else c

/-- Whether a word ends here: at a blank, a line break or the end. -/
def endsWord : List Char → Bool
  | [] => true
  | c :: _ => isSpace c || isBreak c

/-- Whether a line ends here. -/
def endsLine : List Char → Bool
  | [] => true
  | c :: _ => isBreak c

/-- Whether a line that marks the start or the end of a document begins here. -/
def marksDocument : List Char → Bool
  | '-' :: '-' :: '-' :: rest => endsWord rest
  | '.' :: '.' :: '.' :: rest => endsWord rest
  | _ => false

namespace Cursor

/-- The start of a text. -/
def start (text : List Char) : Cursor := ⟨text, 0, 0, 0⟩

/-- Moves over characters of one line. -/
def advance (c : Cursor) (n : Nat) : Cursor :=
  ⟨c.rest.drop n, c.line, c.column + n, c.index + n⟩

/-- Moves over a line break; a carriage return and a line feed are one. -/
def newLine (c : Cursor) : Cursor :=
  match c.rest with
  | '\r' :: '\n' :: rest => ⟨rest, c.line + 1, 0, c.index + 2⟩
  | rest => ⟨rest.drop 1, c.line + 1, 0, c.index + 1⟩

/-- Moves to the end of the line. -/
def toLineEnd (c : Cursor) : Cursor := c.advance (c.rest.takeWhile (!isBreak ·)).length

/-- Moves over the blanks of a line. -/
def skipSpaces (c : Cursor) : Cursor := c.advance (c.rest.takeWhile isSpace).length

/-- Whether a marker of a document stands here, at the start of a line. -/
def atMarker (c : Cursor) : Bool := c.column == 0 && marksDocument c.rest

theorem advance_lt {c : Cursor} {n : Nat} (h : c.rest ≠ []) (hn : 0 < n) :
    (c.advance n).rest.length < c.rest.length := by
  have := List.length_pos_iff.2 h
  simp only [advance, List.length_drop]
  omega

theorem newLine_lt {c : Cursor} (h : c.rest ≠ []) : c.newLine.rest.length < c.rest.length := by
  have := List.length_pos_iff.2 h
  unfold newLine
  split
  · next e => simp only [e, List.length_cons]; omega
  · simp only [List.length_drop]; omega

end Cursor

end Stepwise.Yaml
