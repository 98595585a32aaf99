import Stepwise.Decimal.Reader
import Stepwise.Json.Reader
import Stepwise.Toml.Table

/-!
# Reading settings files

`Toml.read?` reads a file in TOML 1.0 as an object. A date or time is read as an object without
members, for no setting holds one. Arrays and inline tables nest up to 79 levels.
-/

namespace Stepwise.Toml

/-- What is left to read. -/
abbrev Rest := List Char

/-- The greatest number of levels of arrays and inline tables. -/
def deepest : Nat := 79

/-- Blanks that do not end a line. -/
def isSpace (c : Char) : Bool := c == ' ' || c == '\t'

/-- The characters that may stand in comments. -/
def isPrinting (c : Char) : Bool := c == '\t' || (0x20 ≤ c.toNat && c.toNat ≠ 0x7f)

/-- Passes the blanks of a line. -/
def skipSpaces : Rest → Rest := List.dropWhile isSpace

/-- Takes a line break. -/
def lineBreak? : Rest → Option Rest
  | '\n' :: rest => some rest
  | '\r' :: '\n' :: rest => some rest
  | _ => none

/-- Takes a comment, up to the end of its line. -/
def skipComment : Rest → Rest
  | '#' :: rest => rest.dropWhile isPrinting
  | rest => rest

/-- Takes blanks, perhaps a comment, and the end of the line or of the file. -/
def lineEnd? (cs : Rest) : Option Rest :=
  match skipComment (skipSpaces cs) with
  | [] => some []
  | rest => lineBreak? rest

/-- Takes blanks, comments and line breaks. -/
def skipLines : (fuel : Nat) → Rest → Rest
  | 0, cs => cs
  | fuel + 1, cs =>
    let rest := skipComment (skipSpaces cs)
    match lineBreak? rest with
    | some rest => skipLines fuel rest
    | none => rest

/-! ### Strings -/

/-- What an escape of one letter stands for. -/
def escape? : Char → Option Char
  | 'b' => some '\x08'
  | 't' => some '\t'
  | 'n' => some '\n'
  | 'f' => some '\x0c'
  | 'r' => some '\r'
  | '"' => some '"'
  | '\\' => some '\\'
  | _ => none

/-- The character of an escape, and what follows it. -/
def escaped? : Rest → Option (Char × Rest)
  | [] => none
  | c :: rest =>
    let width := if c == 'u' then 4 else if c == 'U' then 8 else 0
    if width = 0 then (escape? c).map (·, rest)
    else if rest.length < width then none
    else do
      let n ← (rest.take width).foldlM (fun n d => (Json.hexDigit? d).map (n * 16 + ·)) 0
      if n.isValidChar then some (Char.ofNat n, rest.drop width) else none

/-- Reads a basic string after its opening quote. -/
def basic : (fuel : Nat) → Rest → Option (List Char × Rest)
  | 0, _ => none
  | _, [] => none
  | fuel + 1, c :: rest =>
    if c == '"' then some ([], rest)
    else if c == '\\' then do
      let (x, rest) ← escaped? rest
      let (text, rest) ← basic fuel rest
      return (x :: text, rest)
    else if isPrinting c then (basic fuel rest).map (fun (text, rest) => (c :: text, rest))
    else none

/-- Reads a literal string after its opening quote. -/
def literal : Rest → Option (List Char × Rest)
  | [] => none
  | c :: rest =>
    if c == '\x27' then some ([], rest)
    else if isPrinting c then (literal rest).map (fun (text, rest) => (c :: text, rest))
    else none

/-- The quotes at the front of a string of several lines: those that belong to it, and what
follows the closing ones if it ends here. -/
def quotes (quote : Char) (cs : Rest) : List Char × Option Rest :=
  let count := (cs.takeWhile (· == quote)).length
  if count < 3 then (List.replicate count quote, none)
  else (List.replicate (min count 5 - 3) quote, some (cs.drop (min count 5)))

/-- Whether a line ends here, perhaps after blanks. -/
def breaksLine (cs : Rest) : Bool := (lineBreak? (skipSpaces cs)).isSome

/-- Drops blanks and line breaks. -/
def skipBreaks : (fuel : Nat) → Rest → Rest
  | 0, cs => cs
  | fuel + 1, cs =>
    match lineBreak? (skipSpaces cs) with
    | some rest => skipBreaks fuel rest
    | none => skipSpaces cs

/-- Reads a string of several lines. A backslash at the end of a line of a basic one takes the
line break and the blanks after it away. -/
def lines (quote : Char) : (fuel : Nat) → Rest → Option (List Char × Rest)
  | 0, _ => none
  | _, [] => none
  | fuel + 1, c :: rest =>
    if c == quote then
      match quotes quote (c :: rest) with
      | (inside, some rest) => some (inside, rest)
      | (inside, none) =>
        (lines quote fuel ((c :: rest).drop inside.length)).map (fun (text, rest) => (inside ++ text, rest))
    else if c == '\\' && quote == '"' then
      if breaksLine rest then lines quote fuel (skipBreaks rest.length rest)
      else do
        let (x, rest) ← escaped? rest
        let (text, rest) ← lines quote fuel rest
        return (x :: text, rest)
    else
      match lineBreak? (c :: rest) with
      | some rest => (lines quote fuel rest).map (fun (text, rest) => ('\n' :: text, rest))
      | none =>
        if isPrinting c then (lines quote fuel rest).map (fun (text, rest) => (c :: text, rest))
        else none

/-- Drops a line break right after the opening quotes. -/
def skipFirstBreak (cs : Rest) : Rest := (lineBreak? cs).getD cs

/-- Reads a string from its opening quote on. -/
def string? (cs : Rest) : Option (String × Rest) :=
  let read : Option (List Char × Rest) :=
    match cs with
    | '"' :: '"' :: '"' :: rest => lines '"' (rest.length + 1) (skipFirstBreak rest)
    | '\x27' :: '\x27' :: '\x27' :: rest => lines '\x27' (rest.length + 1) (skipFirstBreak rest)
    | '"' :: rest => basic (rest.length + 1) rest
    | '\x27' :: rest => literal rest
    | _ => none
  read.map (fun (text, rest) => (String.ofList text, rest))

/-! ### Keys -/

/-- The characters of keys without quotes. -/
def isKeyChar (c : Char) : Bool := Text.isNameChar c

/-- Reads a key of one part. -/
def simpleKey? (cs : Rest) : Option (String × Rest) :=
  match cs with
  | '"' :: rest => (basic (rest.length + 1) rest).map (fun (text, rest) => (String.ofList text, rest))
  | '\x27' :: rest => (literal rest).map (fun (text, rest) => (String.ofList text, rest))
  | cs =>
    let word := cs.takeWhile isKeyChar
    if word.isEmpty then none else some (String.ofList word, cs.drop word.length)

/-- Reads a key of one or several parts with dots between them: all but the last, and the last. -/
def key? : (fuel : Nat) → Rest → Option (Path × String × Rest)
  | 0, _ => none
  | fuel + 1, cs => do
    let (name, rest) ← simpleKey? (skipSpaces cs)
    match skipSpaces rest with
    | '.' :: rest => do
      let (path, key, rest) ← key? fuel rest
      return (name :: path, key, rest)
    | rest => return ([], name, rest)

/-- The longest key. -/
def longestKey : Nat := 79

/-! ### Numbers, dates and times -/

/-- Takes digits of a base with single underscores between them. -/
def digits (isDigit : Char → Bool) (cs : Rest) : Option (List Char × Rest) :=
  match cs with
  | [] => none
  | c :: rest => if isDigit c then some (more (c :: rest)) else none
where
  /-- Takes the digits and underscores after a digit. -/
  more : Rest → List Char × Rest
    | [] => ([], [])
    | '_' :: c :: rest =>
      if isDigit c then
        let (text, rest) := more rest
        (c :: text, rest)
      else ([], '_' :: c :: rest)
    | c :: rest =>
      if isDigit c then
        let (text, rest) := more rest
        (c :: text, rest)
      else ([], c :: rest)

/-- An integer, if it fits in 64 bits. -/
def int? (negative : Bool) (n : Nat) : Option Json :=
  if n < signedBound ∨ (negative ∧ n = signedBound) then some (.int (if negative then -n else n)) else none

/-- Reads an integer in another base than ten, after the mark of its base. -/
def based? (base : Nat) (cs : Rest) : Option (Json × Rest) := do
  let isDigit (c : Char) : Bool := (Json.hexDigit? c).any (· < base)
  let (text, rest) ← digits isDigit cs
  let n := text.foldl (fun n c => n * base + (Json.hexDigit? c).getD 0) 0
  return (← int? false n, rest)

/-- Reads an exponent, if there is one. -/
def exponent? (cs : Rest) : Option (List Char × Rest) :=
  match cs with
  | e :: rest =>
    if e == 'e' || e == 'E' then do
      let (sign, rest) := match rest with
        | '+' :: rest => (['+'], rest)
        | '-' :: rest => (['-'], rest)
        | rest => ([], rest)
      let (text, rest) ← digits Text.isDigit rest
      return ('e' :: sign ++ text, rest)
    else some ([], cs)
  | [] => some ([], [])

/-- A double; one too great for a double is refused. -/
def double? (negative : Bool) (text : List Char) : Option Json :=
  match Decimal.read? (String.ofList text) with
  | none => none
  | some x => if x.isInf && !negative then none else some (.float (if negative then -x else x))

/-- Reads a number in base ten after its sign. -/
def decimal? (negative : Bool) (cs : Rest) : Option (Json × Rest) := do
  let (whole, rest) ← match cs with
    | '0' :: rest => some (['0'], rest)
    | cs => digits Text.isDigit cs
  match rest with
  | '.' :: rest => do
    let (part, rest) ← digits Text.isDigit rest
    let (exponent, rest) ← exponent? rest
    return (← double? negative (whole ++ '.' :: part ++ exponent), rest)
  | rest => do
    let (exponent, rest) ← exponent? rest
    if exponent.isEmpty then return (← int? negative (Text.digitsValue whole), rest)
    else return (← double? negative (whole ++ exponent), rest)

/-- Reads a number with its sign. -/
def number? (cs : Rest) : Option (Json × Rest) :=
  let (negative, rest) := Decimal.signed cs
  match rest with
  | 'i' :: 'n' :: 'f' :: rest => some (.float (Decimal.infinity negative), rest)
  | 'n' :: 'a' :: 'n' :: rest => some (.float Decimal.notNumber, rest)
  | _ =>
    match cs with
    | '0' :: 'x' :: rest => based? 16 rest
    | '0' :: 'o' :: rest => based? 8 rest
    | '0' :: 'b' :: rest => based? 2 rest
    | _ => decimal? negative rest

/-- Takes some digits, whose number must lie in a range. -/
def field? (width least greatest : Nat) (cs : Rest) : Option (Nat × Rest) :=
  let text := cs.take width
  let n := Text.digitsValue text
  if text.length = width ∧ text.all Text.isDigit ∧ least ≤ n ∧ n ≤ greatest then some (n, cs.drop width)
  else none

/-- Takes a character. -/
def mark? (c : Char) : Rest → Option Rest
  | d :: rest => if d = c then some rest else none
  | [] => none

/-- The days of a month. -/
def daysOf (year month : Nat) : Nat :=
  if month = 2 then
    if year % 4 = 0 ∧ (year % 100 ≠ 0 ∨ year % 400 = 0) then 29 else 28
  else if month = 4 ∨ month = 6 ∨ month = 9 ∨ month = 11 then 30 else 31

/-- Takes a date. -/
def date? (cs : Rest) : Option Rest := do
  let (year, rest) ← field? 4 0 9999 cs
  let (month, rest) ← field? 2 1 12 (← mark? '-' rest)
  let (_, rest) ← field? 2 1 (daysOf year month) (← mark? '-' rest)
  return rest

/-- Takes a time of day. -/
def time? (cs : Rest) : Option Rest := do
  let (_, rest) ← field? 2 0 23 cs
  let (_, rest) ← field? 2 0 59 (← mark? ':' rest)
  let (_, rest) ← field? 2 0 60 (← mark? ':' rest)
  match rest with
  | '.' :: c :: more =>
    if Text.isDigit c then return more.dropWhile Text.isDigit else none
  | rest => return rest

/-- Takes the offset of a time zone, if there is one. -/
def offset? (cs : Rest) : Option Rest :=
  match cs with
  | c :: rest =>
    if c == 'Z' || c == 'z' then some rest
    else if c == '+' || c == '-' then do
      let (_, rest) ← field? 2 0 23 rest
      let (_, rest) ← field? 2 0 59 (← mark? ':' rest)
      return rest
    else some cs
  | [] => some []

/-- Whether a number cannot stand here, but a date or time may. -/
def beginsMoment (cs : Rest) : Bool :=
  let begins (width : Nat) (c : Char) : Bool :=
    (cs.take width).all Text.isDigit && (cs.drop width).head? == some c
  begins 4 '-' || begins 2 ':'

/-- Takes a date, a time, or both. -/
def moment? (cs : Rest) : Option Rest :=
  match (cs.drop 2).head? with
  | some ':' => time? cs
  | _ => do
    let rest ← date? cs
    match rest with
    | c :: more =>
      if c == 'T' || c == 't' then offset? (← time? more)
      else if c == ' ' then
        match time? more with
        | some rest => offset? rest
        | none => if beginsMoment more then none else return rest
      else return rest
    | [] => return []

/-! ### Values -/

/-- Whether a value that begins with a character is a number, a date or a time. -/
def beginsNumber (c : Char) : Bool :=
  Text.isDigit c || c == '+' || c == '-' || c == 'i' || c == 'n'

mutual

/-- Reads a value; `depth` is how many levels may still be opened. -/
def value : (fuel depth : Nat) → Rest → Option (Json × Rest)
  | 0, _, _ => none
  | _, _, [] => none
  | fuel + 1, depth, c :: rest =>
    if c == '"' || c == '\x27' then (string? (c :: rest)).map (fun (text, rest) => (.str text, rest))
    else if c == '[' then
      if depth = 0 then none
      else (items fuel (depth - 1) rest).map (fun (items, rest) => (.arr items, rest))
    else if c == '\x7b' then
      if depth = 0 then none
      else
        match skipSpaces rest with
        | '\x7d' :: rest => some (.obj [], rest)
        | rest =>
          (members fuel (depth - 1) [] rest).map (fun (entries, rest) =>
            (.ofMembers (membersOf entries), rest))
    else if beginsNumber c then
      if beginsMoment (c :: rest) then (moment? (c :: rest)).map (.obj [], ·) else number? (c :: rest)
    else
      match c :: rest with
      | 't' :: 'r' :: 'u' :: 'e' :: rest => some (.bool true, rest)
      | 'f' :: 'a' :: 'l' :: 's' :: 'e' :: rest => some (.bool false, rest)
      | _ => none

/-- Reads the items of an array up to its end. -/
def items : (fuel depth : Nat) → Rest → Option (List Json × Rest)
  | 0, _, _ => none
  | fuel + 1, depth, cs =>
    match skipLines cs.length cs with
    | ']' :: rest => some ([], rest)
    | cs =>
      match value fuel depth cs with
      | none => none
      | some (item, rest) =>
        match skipLines rest.length rest with
        | ']' :: rest => some ([item], rest)
        | ',' :: rest => (items fuel depth rest).map (fun (items, rest) => (item :: items, rest))
        | _ => none

/-- Reads the members of an inline table, at least one. -/
def members : (fuel depth : Nat) → Entries → Rest → Option (Entries × Rest)
  | 0, _, _, _ => none
  | fuel + 1, depth, entries, cs =>
    match key? longestKey cs with
    | some (path, key, '=' :: rest) =>
      match value fuel depth (skipSpaces rest) with
      | none => none
      | some (item, rest) =>
        match entries.insert path key item, skipSpaces rest with
        | some entries, '\x7d' :: rest => some (entries, rest)
        | some entries, ',' :: rest => members fuel depth entries rest
        | _, _ => none
    | _ => none

end

/-! ### Lines -/

/-- Reads a header or an entry, without the end of its line. -/
def line? (cs : Rest) : Option (Line × Rest) :=
  match cs with
  | '[' :: '[' :: rest =>
    match key? longestKey rest with
    | some (path, key, ']' :: ']' :: rest) => some (.listHeader path key, rest)
    | _ => none
  | '[' :: rest =>
    match key? longestKey rest with
    | some (path, key, ']' :: rest) => some (.header path key, rest)
    | _ => none
  | cs =>
    match key? longestKey cs with
    | some (path, key, '=' :: rest) =>
      (value (2 * rest.length + 2) deepest (skipSpaces rest)).map (fun (item, rest) =>
        (.entry path key item, rest))
    | _ => none

/-- Reads all lines that say something. -/
def allLines : (fuel : Nat) → Rest → Option (List Line)
  | 0, _ => none
  | fuel + 1, cs =>
    match lineEnd? cs with
    | some [] => some []
    | some rest => allLines fuel rest
    | none =>
      match line? (skipSpaces cs) with
      | none => none
      | some (line, rest) =>
        match lineEnd? rest with
        | none => none
        | some rest => (allLines fuel rest).map (line :: ·)

/-- Reads a settings file as an object. -/
def read? (text : String) : Option Json := do
  let cs := match text.toList with
    | '\ufeff' :: rest => rest
    | cs => cs
  let lines ← allLines (cs.length + 1) cs
  let root ← build [] [] lines
  return .ofMembers (membersOf root)

end Stepwise.Toml
