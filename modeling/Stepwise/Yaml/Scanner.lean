import Stepwise.Yaml.Scalar
import Stepwise.Yaml.Token

/-!
# From text to tokens

A scanner moves a cursor over a text and writes tokens. It keeps the columns of the open blocks,
and for every open flow collection, and for the blocks around them, where a key may have begun:
whether something is a key shows only at the colon after it, which must stand on the same line
and not too far away. The key's own token is then put in front of it.

`Token.scan?` gives the tokens of a whole text, or nothing if no tokens can be made of it.
-/

namespace Stepwise.Yaml

/-- A place where a key may have begun. -/
structure KeyStart where
  /-- How many tokens there were before. -/
  number : Nat
  line : Nat
  column : Nat
  index : Nat
  /-- Whether nothing but a key may stand here. -/
  required : Bool

/-- The state of a scan. -/
structure Scanner where
  cursor : Cursor
  tokens : Array Token
  /-- The columns of the open blocks, the innermost first. -/
  indents : List Nat
  /-- The place where a key may have begun, for each open flow collection and the text around. -/
  keyStarts : List (Option KeyStart)
  /-- Whether a key may begin here. -/
  keyAllowed : Bool
  /-- The names of anchors and their numbers. -/
  anchors : Table Nat
  /-- The handles of tags and what they stand for. -/
  handles : Table String
  /-- Whether the version was told. -/
  versioned : Bool

/-- How far the colon after a key may be. -/
def longestKey : Nat := 1024

/-- What tags of the core schema begin with. -/
def coreTags : String := "tag:yaml.org,2002:"

namespace Scanner

/-- The scanner at the start of a text. -/
def start (text : List Char) : Scanner :=
  ⟨.start text, #[], [], [none], true, [], [("!", "!"), ("!!", coreTags)], false⟩

/-- Whether a bracket is open, within which no block is. -/
def inFlow (s : Scanner) : Bool := 1 < s.keyStarts.length

/-- The least column of what belongs to the innermost block. -/
def least (s : Scanner) : Nat := s.indents.head?.elim 0 (· + 1)

/-- Writes a token. -/
def emit (s : Scanner) (token : Token) : Scanner := { s with tokens := s.tokens.push token }

/-- Moves on and writes a token. -/
def take (s : Scanner) (width : Nat) (token : Token) : Scanner :=
  { s with cursor := s.cursor.advance width, tokens := s.tokens.push token }

/-- Sets whether a key may stand at the cursor. -/
def allowKeys (s : Scanner) (allowed : Bool) : Scanner := { s with keyAllowed := allowed }

/-- Closes the blocks that stand further in than a column, or all of them. -/
def closeBlocks (s : Scanner) (column : Option Nat) : Scanner :=
  if s.inFlow then s
  else
    let closed := s.indents.takeWhile (fun indent => column.all (· < indent))
    { s with
      indents := s.indents.drop closed.length
      tokens := s.tokens ++ closed.map (fun _ => Token.blockEnd) }

/-- Opens a block at a column, unless one is open there. Its token is put where the tokens were
`number` ones. -/
def openBlock (s : Scanner) (column number : Nat) (token : Token) : Scanner :=
  if s.inFlow ∨ column < s.least then s
  else { s with indents := column :: s.indents, tokens := s.tokens.insertIdxIfInBounds number token }

/-- Gives up the key that may have begun here; there must not have to be one. -/
def dropKey (s : Scanner) : Option Scanner :=
  match s.keyStarts with
  | some start :: outer => if start.required then none else some { s with keyStarts := none :: outer }
  | _ => some s

/-- Notes that a key may begin here. -/
def noteKey (s : Scanner) : Option Scanner :=
  if !s.keyAllowed then some s
  else
    (s.dropKey).map (fun s => { s with
      keyStarts := some ⟨s.tokens.size, s.cursor.line, s.cursor.column, s.cursor.index,
        !s.inFlow && s.indents.head? == some s.cursor.column⟩ :: s.keyStarts.drop 1 })

/-- Whether the colon may no longer follow a key that began at a place. -/
def tooFar (c : Cursor) (start : KeyStart) : Bool :=
  start.line < c.line || start.index + longestKey < c.index

/-- Gives up all keys whose colon may no longer follow. -/
def dropStale (s : Scanner) : Option Scanner :=
  let stale (key : Option KeyStart) : Bool := key.any (tooFar s.cursor)
  if s.keyStarts.any (fun key => stale key && key.any KeyStart.required) then none
  else some { s with keyStarts := s.keyStarts.map (fun key => if stale key then none else key) }

/-- Moves over blanks, comments and line breaks. Outside flow collections a new line allows keys,
and tabs count as blanks only where no key may begin. -/
def skip (inFlow comment allowed : Bool) (c : Cursor) : Bool × Cursor :=
  match _h : c.rest with
  | [] => (allowed, c)
  | x :: _ =>
    if isBreak x then skip inFlow false (allowed || !inFlow) c.newLine
    else if comment || x == ' ' || (x == '\t' && (inFlow || !allowed)) then
      skip inFlow comment allowed (c.advance 1)
    else if x == '#' then skip inFlow true allowed (c.advance 1)
    else (allowed, c)
termination_by c.rest.length
decreasing_by
  all_goals first
    | exact Cursor.advance_lt (by simp [_h]) (by omega)
    | exact Cursor.newLine_lt (by simp [_h])

/-- The characters of names of anchors and of handles of tags. -/
def isWordChar (c : Char) : Bool := Text.isNameChar c

/-- The characters of a tag beside letters, digits, `_` and `-`; those of a flow collection only
between angle brackets. -/
def isTagChar (bracketed : Bool) (c : Char) : Bool :=
  isWordChar c || ";/?:@&=+$.%!~*\x27()".toList.contains c ||
    (bracketed && (c == ',' || c == '[' || c == ']'))

/-- Decodes the bytes that percent signs in a tag stand for. -/
def unescapeTag : (fuel : Nat) → List Char → Option (List UInt8)
  | 0, _ => none
  | _, [] => some []
  | fuel + 1, '%' :: a :: b :: rest => do
    let n := (← Json.hexDigit? a) * 16 + (← Json.hexDigit? b)
    return UInt8.ofNat n :: (← unescapeTag fuel rest)
  | fuel + 1, c :: rest => do
    if c == '%' then none
    else return (String.singleton c).toUTF8.toList ++ (← unescapeTag fuel rest)

/-- The text of a tag or of a part of one. -/
def tagText? (cs : List Char) : Option String := do
  String.fromUTF8? ⟨(← unescapeTag (cs.length + 1) cs).toArray⟩

/-- Reads a tag: its name and how many characters it takes. -/
def tag? (handles : Table String) (cs : List Char) : Option (String × Nat) :=
  match cs with
  | '!' :: '<' :: rest =>
    let name := rest.takeWhile (isTagChar true)
    if name.isEmpty || (rest.drop name.length).head? != some '>' then none
    else (tagText? name).map (·, name.length + 3)
  | '!' :: rest =>
    let word := rest.takeWhile isWordChar
    match rest.drop word.length with
    | '!' :: rest =>
      let suffix := rest.takeWhile (isTagChar false)
      if suffix.isEmpty then none
      else
        match Table.find? handles (String.ofList ('!' :: word ++ ['!'])), tagText? suffix with
        | some start, some name => some (start ++ name, word.length + suffix.length + 2)
        | _, _ => none
    | _ =>
      let suffix := rest.takeWhile (isTagChar false)
      if suffix.isEmpty then some ("!", 1)
      else
        match Table.find? handles "!", tagText? suffix with
        | some start, some name => some (start ++ name, suffix.length + 1)
        | _, _ => none
  | _ => none

/-- What may stand right after the name of an anchor. -/
def endsAnchor (cs : List Char) : Bool :=
  endsWord cs || cs.head?.any ("?:,]\x7d%@\x60".toList.contains ·)

/-- Writes an anchor or an alias. An anchor takes the number of names in use before it, also where
its name was in use; an alias has the number of the last anchor of its name. -/
def anchor (isAlias : Bool) (s : Scanner) : Option Scanner :=
  let rest := s.cursor.rest.drop 1
  let word := rest.takeWhile isWordChar
  let name := String.ofList word
  if word.isEmpty || !endsAnchor (rest.drop word.length) then none
  else if isAlias then
    (s.anchors.find? name).map (fun number => s.take (word.length + 1) (.alias number))
  else
    let number := s.anchors.length
    some { s.take (word.length + 1) (.anchor number) with anchors := s.anchors.insert name number }

/-- Writes a tag. -/
def tag (s : Scanner) : Option Scanner :=
  match tag? s.handles s.cursor.rest with
  | none => none
  | some (name, width) =>
    let s := s.take width (.tag name)
    if endsWord s.cursor.rest || (s.inFlow && s.cursor.rest.head? == some ',') then some s else none

/-- Reads what a directive says: a version, or what a handle stands for. -/
def directive (s : Scanner) : Option Scanner :=
  let line := s.cursor.rest.takeWhile (!isBreak ·)
  let words := ((String.ofList line).split isSpace).toList.map (·.copy) |>.filter (· ≠ "")
  let words := words.takeWhile (fun word => !word.startsWith "#")
  let s := (s.take line.length .directive)
  match words with
  | ["%YAML", version] =>
    if s.versioned ∨ (version ≠ "1.1" ∧ version ≠ "1.2") then none else some { s with versioned := true }
  | ["%TAG", handle, start] => some { s with handles := s.handles.insert handle start }
  | _ => none

/-- Writes a scalar. -/
def scalar (s : Scanner) (style : Style) : Option (String × Cursor) → Option Scanner
  | none => none
  | some (text, cursor) => some { s with cursor, tokens := s.tokens.push (.scalar style text) }

/-- Opens a flow collection. -/
def openFlow (s : Scanner) (token : Token) : Option Scanner :=
  (s.noteKey).map (fun s =>
    ({ s with keyStarts := none :: s.keyStarts }.allowKeys true).take 1 token)

/-- Closes a flow collection. -/
def closeFlow (s : Scanner) (token : Token) : Option Scanner :=
  (s.dropKey).map (fun s =>
    ({ s with keyStarts := if s.inFlow then s.keyStarts.drop 1 else s.keyStarts }.allowKeys false).take 1
      token)

/-- Writes the mark of an item of a block. -/
def entry (s : Scanner) : Option Scanner :=
  if !s.inFlow && !s.keyAllowed then none
  else
    ((s.openBlock s.cursor.column s.tokens.size .blockSequence).dropKey).map (fun s =>
      (s.allowKeys true).take 1 .entry)

/-- Writes the mark of a key that is marked as one. -/
def key (s : Scanner) : Option Scanner :=
  if !s.inFlow && !s.keyAllowed then none
  else
    ((s.openBlock s.cursor.column s.tokens.size .blockMapping).dropKey).map (fun s =>
      (s.allowKeys (!s.inFlow)).take 1 .key)

/-- Writes the mark of a value, and that of its key where the key began. -/
def value (s : Scanner) : Option Scanner :=
  match s.keyStarts with
  | some start :: outer =>
    let s := { s with tokens := s.tokens.insertIdxIfInBounds start.number .key }
    let s := s.openBlock start.column start.number .blockMapping
    some (({ s with keyStarts := none :: outer }.allowKeys false).take 1 .value)
  | _ =>
    if !s.inFlow && !s.keyAllowed then none
    else
      let s := s.openBlock s.cursor.column s.tokens.size .blockMapping
      some ((s.allowKeys (!s.inFlow)).take 1 .value)

/-- Writes what stands at the start of a line that belongs to no block: a mark of a document, or
a directive. -/
def atMargin (s : Scanner) :
    Option Scanner := ((s.closeBlocks none).dropKey).map (·.allowKeys false)

/-- The characters that no plain scalar begins with. -/
def isIndicator (c : Char) : Bool := "-?:,[]\x7b\x7d#&*!|>\x27\"%@\x60".toList.contains c

/-- Whether a plain scalar begins here. -/
def beginsPlain (inFlow : Bool) (c : Char) (rest : List Char) : Bool :=
  !(endsWord [c] || isIndicator c) || (c == '-' && !rest.head?.any isSpace) ||
    (!inFlow && (c == '?' || c == ':') && !endsWord rest)

/-- Writes a plain scalar. A scalar that ends with its line allows keys again. -/
def plainScalar (s : Scanner) : Option Scanner :=
  match plain s.inFlow s.least s.cursor with
  | none => none
  | some (text, broken, cursor) =>
    some { s.allowKeys broken with cursor, tokens := s.tokens.push (.scalar .plain text) }

/-- Writes the next token, at its first character. -/
def next (s : Scanner) (c : Char) (rest : List Char) : Option Scanner :=
  if s.cursor.column == 0 && c == '%' then s.atMargin.bind directive
  else if s.cursor.atMarker then
    s.atMargin.map (·.take 3 (if c == '-' then .documentStart else .documentEnd))
  else if c == '[' then s.openFlow .openSequence
  else if c == '\x7b' then s.openFlow .openMapping
  else if c == ']' then s.closeFlow .closeSequence
  else if c == '\x7d' then s.closeFlow .closeMapping
  else if c == ',' then s.dropKey.map (fun s => (s.allowKeys true).take 1 .comma)
  else if c == '-' && endsWord rest then s.entry
  else if c == '?' && (s.inFlow || endsWord rest) then s.key
  else if c == ':' && (s.inFlow || endsWord rest) then s.value
  else if c == '*' then (s.noteKey.map (·.allowKeys false)).bind (anchor true)
  else if c == '&' then (s.noteKey.map (·.allowKeys false)).bind (anchor false)
  else if c == '!' then (s.noteKey.map (·.allowKeys false)).bind tag
  else if (c == '|' || c == '>') && !s.inFlow then
    s.dropKey.bind (fun s => (s.allowKeys true).scalar (if c == '|' then .literal else .folded)
      (block (c == '>') s.indents.head? s.cursor))
  else if c == '\x27' || c == '"' then
    s.noteKey.bind (fun s => (s.allowKeys false).scalar .quoted (quoted (c == '"') s.cursor))
  else if beginsPlain s.inFlow c rest then (s.noteKey.map (·.allowKeys false)).bind plainScalar
  else none

/-- Writes the tokens from here to the end. -/
def run : (fuel : Nat) → Scanner → Option (List Token)
  | 0, _ => none
  | fuel + 1, s =>
    let (keyAllowed, cursor) := skip s.inFlow false s.keyAllowed s.cursor
    match { s with keyAllowed, cursor }.dropStale with
    | none => none
    | some s =>
      match s.cursor.rest with
      | [] => s.atMargin.map (·.tokens.toList)
      | c :: rest =>
        match (s.closeBlocks (some s.cursor.column)).next c rest with
        | none => none
        | some s => run fuel s

end Scanner

/-- The characters that may stand in a text. -/
def isAllowed (c : Char) : Bool :=
  let n := c.toNat
  n == 0x09 || n == 0x0a || n == 0x0d || (0x20 ≤ n && n ≤ 0x7e) || n == 0x85 ||
    (0xa0 ≤ n && n ≤ 0xd7ff) || (0xe000 ≤ n && n ≤ 0xfffd && n ≠ 0xfeff) || 0x10000 ≤ n

/-- The tokens of a text. A byte order mark at its start counts for nothing. -/
def Token.scan? (text : String) : Option (List Token) :=
  let cs := match text.toList with
    | '\ufeff' :: rest => rest
    | cs => cs
  if cs.all isAllowed then (Scanner.start cs).run (cs.length + 1) else none

end Stepwise.Yaml
