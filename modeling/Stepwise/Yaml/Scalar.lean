import Stepwise.Json.Reader
import Stepwise.Yaml.Cursor

/-!
# Scalars in their three notations

Plain and quoted scalars run over several lines; each gap between two words of them is folded:
blanks within a line stay, one line break becomes a blank, and further ones stay as they are. A
block scalar is the lines that stand further in than the block around it.
-/

namespace Stepwise.Yaml

/-- The blanks and line breaks between two words of a scalar, as far as they were read. Blanks
after the first break count for nothing. -/
structure Gap where
  spaces : List Char
  broken : Bool
  first : Option Char
  further : List Char

namespace Gap

/-- No gap yet. -/
def empty : Gap := ⟨[], false, none, []⟩

/-- A gap that begins with a line break that is no part of the scalar. -/
def joined : Gap := ⟨[], true, none, []⟩

/-- What a gap is worth in the scalar. -/
def folded (gap : Gap) : List Char :=
  if !gap.broken then gap.spaces
  else
    match gap.first with
    | none => gap.further
    | some '\n' => if gap.further.isEmpty then [' '] else gap.further
    | some c => c :: gap.further

/-- Adds a line break. -/
def withBreak (gap : Gap) (c : Char) : Gap :=
  if gap.broken then { gap with further := gap.further ++ [breakValue c] }
  else { gap with spaces := [], broken := true, first := some (breakValue c) }

/-- Reads a gap. A tab before the column `least` of a new line is refused. -/
def read (least : Nat) (gap : Gap) (c : Cursor) : Option (Gap × Cursor) :=
  match _h : c.rest with
  | [] => some (gap, c)
  | x :: _ =>
    if isSpace x then
      if gap.broken then
        if x == '\t' && c.column < least then none else read least gap (c.advance 1)
      else read least { gap with spaces := gap.spaces ++ [x] } (c.advance 1)
    else if isBreak x then read least (gap.withBreak x) c.newLine
    else some (gap, c)
termination_by c.rest.length
decreasing_by
  all_goals first
    | exact Cursor.advance_lt (by simp [_h]) (by omega)
    | exact Cursor.newLine_lt (by simp [_h])

end Gap

/-! ### Plain scalars -/

/-- The characters that hold flow collections together. -/
def isFlowMark (c : Char) : Bool :=
  c == ',' || c == '[' || c == ']' || c == '\x7b' || c == '\x7d'

/-- The word of a plain scalar at the front, and what is left; in a flow collection a colon just
before a mark of one is refused. -/
def plainWord (inFlow : Bool) : List Char → Option (List Char × List Char)
  | [] => some ([], [])
  | c :: rest =>
    if isSpace c || isBreak c then some ([], c :: rest)
    else if inFlow && c == ':' && rest.head?.any (fun d => isFlowMark d || d == '?') then none
    else if c == ':' && endsWord rest then some ([], c :: rest)
    else if inFlow && isFlowMark c then some ([], c :: rest)
    else (plainWord inFlow rest).map (fun (word, rest) => (c :: word, rest))

/-- Reads a plain scalar on from a word, with the gap before that word; `least` is the least
column of its lines in a block. Tells too whether it ended with a line. -/
def plainWords (inFlow : Bool) (least : Nat) :
    (fuel : Nat) → Gap → Cursor → Option (List Char × Bool × Cursor)
  | 0, _, _ => none
  | fuel + 1, gap, c =>
    if c.atMarker || c.rest.head? == some '#' then some ([], gap.broken, c)
    else
      match plainWord inFlow c.rest with
      | none => none
      | some ([], _) => some ([], gap.broken, c)
      | some (word, _) =>
        let front := gap.folded ++ word
        match Gap.read least .empty (c.advance word.length) with
        | none => none
        | some (after, c) =>
          if after.spaces.isEmpty && !after.broken then some (front, false, c)
          else if !inFlow && c.column < least then some (front, after.broken, c)
          else (plainWords inFlow least fuel after c).map (fun (more, broken, c) => (front ++ more, broken, c))

/-- Reads a plain scalar. -/
def plain (inFlow : Bool) (least : Nat) (c : Cursor) : Option (String × Bool × Cursor) :=
  (plainWords inFlow least (c.rest.length + 1) .empty c).map
    (fun (text, broken, c) => (String.ofList text, broken, c))

/-! ### Quoted scalars -/

/-- What an escape of one letter stands for. -/
def escape? : Char → Option Char
  | '0' => some '\x00'
  | 'a' => some '\x07'
  | 'b' => some '\x08'
  | 't' => some '\t'
  | '\t' => some '\t'
  | 'n' => some '\n'
  | 'v' => some '\x0b'
  | 'f' => some '\x0c'
  | 'r' => some '\r'
  | 'e' => some '\x1b'
  | ' ' => some ' '
  | '"' => some '"'
  | '/' => some '/'
  | '\\' => some '\\'
  | 'N' => some '\u0085'
  | '_' => some '\u00a0'
  | 'L' => some '\u2028'
  | 'P' => some '\u2029'
  | _ => none

/-- How many hexadecimal digits an escape by number has. -/
def escapeWidth? : Char → Option Nat
  | 'x' => some 2
  | 'u' => some 4
  | 'U' => some 8
  | _ => none

/-- The number that hexadecimal digits stand for. -/
def hexValue? (digits : List Char) : Option Nat :=
  digits.foldlM (fun n c => (Json.hexDigit? c).map (n * 16 + ·)) 0

/-- The character of an escape and how many characters it takes after the backslash. -/
def escaped? : List Char → Option (Char × Nat)
  | [] => none
  | c :: rest =>
    match escapeWidth? c with
    | none => (escape? c).map (·, 1)
    | some width =>
      if rest.length < width then none
      else
        match hexValue? (rest.take width) with
        | none => none
        | some n => if n.isValidChar then some (Char.ofNat n, width + 1) else none

/-- Reads the words of a quoted scalar up to its closing quote. -/
def quotedWords (double : Bool) : (fuel : Nat) → Cursor → Option (List Char × Cursor)
  | 0, _ => none
  | fuel + 1, c =>
    if c.atMarker then none
    else
      match c.rest with
      | [] => none
      | x :: rest =>
        if isSpace x || isBreak x then
          match Gap.read 0 .empty c with
          | none => none
          | some (gap, c) => (quotedWords double fuel c).map (fun (more, c) => (gap.folded ++ more, c))
        else if !double && x == '\x27' then
          if rest.head? == some '\x27' then
            (quotedWords double fuel (c.advance 2)).map (fun (more, c) => ('\x27' :: more, c))
          else some ([], c.advance 1)
        else if double && x == '"' then some ([], c.advance 1)
        else if double && x == '\\' then
          if rest.head?.any isBreak then
            match Gap.read 0 .joined (c.advance 1).newLine with
            | none => none
            | some (gap, c) => (quotedWords double fuel c).map (fun (more, c) => (gap.folded ++ more, c))
          else
            match escaped? rest with
            | none => none
            | some (y, width) =>
              (quotedWords double fuel (c.advance (width + 1))).map (fun (more, c) => (y :: more, c))
        else (quotedWords double fuel (c.advance 1)).map (fun (more, c) => (x :: more, c))

/-- Reads a quoted scalar from its opening quote on. -/
def quoted (double : Bool) (c : Cursor) : Option (String × Cursor) :=
  (quotedWords double (c.rest.length + 1) (c.advance 1)).map (fun (text, c) => (String.ofList text, c))

/-! ### Block scalars -/

/-- What becomes of the line breaks at the end of a block scalar. -/
inductive Chomping where
  | strip
  | clip
  | keep
deriving DecidableEq, Repr

/-- The sign of a way to chomp. -/
def chomping? : List Char → Option Chomping
  | '+' :: _ => some .keep
  | '-' :: _ => some .strip
  | _ => none

/-- The depth that a digit asks for; zero is refused. -/
def depth? : List Char → Option (Option Nat)
  | c :: _ =>
    if c == '0' then none
    else if '1' ≤ c && c ≤ '9' then some (some (c.toNat - '0'.toNat)) else some none
  | [] => some none

/-- Reads the signs after the mark of a block scalar: how to chomp and how deep it stands. -/
def blockHeader (c : Cursor) : Option (Chomping × Option Nat × Cursor) :=
  match chomping? c.rest with
  | some chomping =>
    let c := c.advance 1
    match depth? c.rest with
    | none => none
    | some none => some (chomping, none, c)
    | some depth => some (chomping, depth, c.advance 1)
  | none =>
    match depth? c.rest with
    | none => none
    | some none => some (.clip, none, c)
    | some depth =>
      let c := c.advance 1
      match chomping? c.rest with
      | some chomping => some (chomping, depth, c.advance 1)
      | none => some (.clip, depth, c)

/-- Moves over the blanks before a column, or over all where there is none. -/
def skipIndent (column : Option Nat) (c : Cursor) : Cursor :=
  let blanks := (c.rest.takeWhile (· == ' ')).length
  c.advance (match column with
    | none => blanks
    | some column => min blanks (column - c.column))

/-- Reads empty lines before a line of a block scalar: their breaks, and the column of the widest.
-/
def emptyLines (column : Option Nat) :
    (fuel : Nat) → (widest : Nat) → Cursor → Option (List Char × Nat × Cursor)
  | 0, _, _ => none
  | fuel + 1, widest, c =>
    let c := skipIndent column c
    let widest := max widest c.column
    match c.rest with
    | [] => some ([], widest, c)
    | x :: _ =>
      if x == '\t' && column.all (c.column < ·) then none
      else if isBreak x then
        (emptyLines column fuel widest c.newLine).map
          (fun (breaks, widest, c) => (breakValue x :: breaks, widest, c))
      else some ([], widest, c)

/-- Reads the lines of a block scalar. `last` is the break of the line before, if there was one,
`breaks` are those of the empty lines after it, and `wasBlank` tells whether that line began with a
blank. Hands back what the text is, and the breaks at its end. -/
def blockLines (fold : Bool) (column : Nat) :
    (fuel : Nat) → (last : List Char) → (breaks : List Char) → (wasBlank : Bool) → Cursor →
      Option (List Char × List Char × List Char × Cursor)
  | 0, _, _, _, _ => none
  | fuel + 1, last, breaks, wasBlank, c =>
    if c.column == column && !c.rest.isEmpty then
      let blank := c.rest.head?.any isSpace
      let front :=
        if fold && last == ['\n'] && !wasBlank && !blank then
          if breaks.isEmpty then [' '] else []
        else last
      let line := c.rest.takeWhile (!isBreak ·)
      let c := c.advance line.length
      let (ending, c) := match c.rest with
        | [] => ([], c)
        | x :: _ => ([breakValue x], c.newLine)
      match emptyLines (some column) (c.rest.length + 1) 0 c with
      | none => none
      | some (after, _, c) =>
        (blockLines fold column fuel ending after blank c).map
          (fun (text, tail) => (front ++ breaks ++ line ++ text, tail))
    else some ([], last, breaks, c)

/-- Reads a block scalar from its mark on; `indent` is the column of the block around it. -/
def block (fold : Bool) (indent : Option Nat) (c : Cursor) : Option (String × Cursor) :=
  match blockHeader (c.advance 1) with
  | none => none
  | some (chomping, depth, c) =>
    let c := c.skipSpaces
    let c := if c.rest.head? == some '#' then c.toLineEnd else c
    if !endsLine c.rest then none
    else
      let c := if c.rest.isEmpty then c else c.newLine
      let given := depth.map (indent.getD 0 + ·)
      let least := max 1 (indent.elim 0 (· + 1))
      match emptyLines given (c.rest.length + 1) 0 c with
      | none => none
      | some (breaks, widest, c) =>
        let column := given.getD (max widest least)
        match blockLines fold column (c.rest.length + 2) [] breaks false c with
        | none => none
        | some (text, last, breaks, c) =>
          let tail := match chomping with
            | .strip => []
            | .clip => last
            | .keep => last ++ breaks
          some (String.ofList (text ++ tail), c)

end Stepwise.Yaml
