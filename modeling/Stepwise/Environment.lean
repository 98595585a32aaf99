import Stepwise.Table
import Stepwise.Text.Character

/-!
# The environment

Variables, and the `.env` file that adds to them. A line of that file gives one variable; quoted
values may run over several lines, and values may refer to variables that are set already. A line
that cannot be read ends the reading, and a variable that is set keeps its value.
-/

namespace Stepwise

/-- The variables of the environment. -/
abbrev Environment := Table String

namespace Environment

/-! ### Lines -/

/-- Where in a line quotes are open: not at all, right after a blank, after a backslash, or between
quotes and perhaps after a backslash there. -/
inductive Quoting where
  | bare
  | blank
  | escape
  | strong
  | strongEscape
  | weak
  | weakEscape
deriving DecidableEq, Repr

/-- How a character outside of quotes goes on. -/
def Quoting.opened (c : Char) : Quoting :=
  if c == '\\' then .escape else if c == '"' then .weak else if c == '\x27' then .strong else .bare

/-- How a character goes on. -/
def Quoting.next (quoting : Quoting) (c : Char) : Quoting :=
  match quoting with
  | .blank => .opened c
  | .escape => .bare
  | .bare => if Text.isBlank c && c != '\n' && c != '\r' then .blank else .opened c
  | .weak => if c == '\\' then .weakEscape else if c == '"' then .bare else .weak
  | .weakEscape => .weak
  | .strong => if c == '\\' then .strongEscape else if c == '\x27' then .bare else .strong
  | .strongEscape => .strong

/-- What comes before a comment in a line, and how the line goes on if it has none. -/
def beforeComment (quoting : Quoting) : List Char → List Char × Option Quoting
  | [] => ([], some quoting)
  | c :: rest =>
    if quoting == .blank && c == '#' then ([], none)
    else
      let (front, ending) := beforeComment (quoting.next c) rest
      (c :: front, ending)

/-- The lines of a text, each with its line break. -/
def physicalLines : List Char → List (List Char)
  | [] => []
  | c :: rest =>
    if c == '\n' then ['\n'] :: physicalLines rest
    else
      match physicalLines rest with
      | [] => [[c]]
      | line :: lines => (c :: line) :: lines

/-- Whether a line is a comment as a whole. -/
def isComment (line : List Char) : Bool := (line.dropWhile Text.isBlank).head? == some '#'

/-- Joins lines while quotes are open; quotes that are never closed make no line. -/
def joinedLines (quoting : Quoting) (held : List Char) :
    List (List Char) → List (Option (List Char))
  | [] => if quoting == .bare then [] else [none]
  | line :: rest =>
    if isComment (held ++ line) then some [] :: joinedLines .bare [] rest
    else
      match beforeComment quoting line with
      | (front, none) => some (held ++ front) :: joinedLines .bare [] rest
      | (_, some .bare) => some (held ++ line) :: joinedLines .bare [] rest
      | (_, some quoting) => joinedLines quoting (held ++ line) rest

/-! ### Values -/

/-- Where in a value the reading is. A reference is by name, perhaps in braces; `weak` tells
whether double quotes are open. -/
inductive ValueMode where
  | plain (weak : Bool)
  | escape (weak : Bool)
  | strong
  | reference (braced weak : Bool) (name : List Char)
  | ended

/-- The value of a variable, which is empty where it is not set. -/
def valueOf (env : Environment) (name : List Char) : List Char :=
  ((env.find? (String.ofList name)).getD "").toList

/-- Reads a value. After a blank only a comment may follow. -/
def readValue (env : Environment) : ValueMode → List Char → Option (List Char)
  | .plain weak, [] => if weak then none else some []
  | .escape weak, [] => if weak then none else some []
  | .strong, [] => none
  | .reference braced weak name, [] => if braced || weak then none else some (valueOf env name)
  | .ended, [] => some []
  | .ended, c :: rest =>
    if c == ' ' || c == '\t' then readValue env .ended rest
    else if c == '#' then some []
    else none
  | .escape weak, c :: rest =>
    let escaped? : Option Char :=
      if c == 'n' then some '\n' else if "\\\x27\"$ ".toList.contains c then some c else none
    match escaped? with
    | none => none
    | some x => (readValue env (.plain weak) rest).map (x :: ·)
  | .strong, c :: rest =>
    if c == '\x27' then readValue env (.plain false) rest
    else (readValue env .strong rest).map (c :: ·)
  | .reference braced weak name, c :: rest =>
    if Text.isLetter c || Text.isDigit c then
      readValue env (.reference braced weak (name ++ [c])) rest
    else if braced then
      if c == '\x7d' then (readValue env (.plain weak) rest).map (valueOf env name ++ ·)
      else readValue env (.reference true weak (name ++ [c])) rest
    else if c == '\x7b' && name.isEmpty then readValue env (.reference true weak []) rest
    else if c == '$' then
      (readValue env (.reference false weak []) rest).map (valueOf env name ++ ·)
    else (readValue env (.plain weak) rest).map (valueOf env name ++ c :: ·)
  | .plain weak, c :: rest =>
    if c == '$' then readValue env (.reference false weak []) rest
    else if c == '\\' then readValue env (.escape weak) rest
    else if c == '"' then readValue env (.plain (!weak)) rest
    else if weak then (readValue env (.plain true) rest).map (c :: ·)
    else if c == '\x27' then readValue env .strong rest
    else if c == ' ' || c == '\t' then readValue env .ended rest
    else (readValue env (.plain false) rest).map (c :: ·)

/-- Reads the name of a variable. -/
def readName (cs : List Char) : Option (String × List Char) :=
  match cs with
  | [] => none
  | c :: _ =>
    if Text.isLetter c || c == '_' then
      let name := cs.takeWhile (fun c => Text.isLetter c || Text.isDigit c || c == '_' || c == '.')
      some (String.ofList name, (cs.drop name.length).dropWhile Text.isBlank)
    else none

/-- Reads the name of a variable and the sign after it; the word `export` may stand in front. -/
def readTarget (cs : List Char) : Option (String × List Char) := do
  let (name, rest) ← readName cs
  match rest with
  | '=' :: rest => return (name, rest)
  | rest =>
    if name = "export" then
      let (name, rest) ← readName rest
      match rest with
      | '=' :: rest => return (name, rest)
      | _ => none
    else none

/-- Reads a line as a variable and its value; an empty line gives none. -/
def readLine (env : Environment) (line : List Char) : Option (Option (String × String)) :=
  match Text.trimmed line with
  | [] => some none
  | '#' :: _ => some none
  | cs => do
    let (name, rest) ← readTarget cs
    match rest.dropWhile Text.isBlank with
    | [] => return some (name, "")
    | '#' :: _ => return some (name, "")
    | rest => return some (name, String.ofList (← readValue env (.plain false) rest))

/-- Adds what lines give, up to the first that cannot be read. -/
def addLines (env : Environment) : List (Option (List Char)) → Environment
  | [] => env
  | none :: _ => env
  | some line :: rest =>
    match readLine env line with
    | none => env
    | some none => addLines env rest
    | some (some (name, value)) =>
      addLines (if env.contains name then env else env.insert name value) rest

/-- Adds what a `.env` file gives. -/
def addFile (env : Environment) (text : String) : Environment :=
  let cs := match text.toList with
    | '\ufeff' :: rest => rest
    | cs => cs
  addLines env (joinedLines .bare [] (physicalLines cs))

/-! ### Places -/

/-- A path inside of another one. -/
def joinPath (directory name : String) : String :=
  if directory.isEmpty || directory.endsWith "/" then directory ++ name else directory ++ "/" ++ name

/-- The `.env` files of a directory and of those around it, the nearest first. -/
def places (directory : String) : List String :=
  let names := directory.splitOn "/"
  (List.range names.length).map (fun k =>
    "/".intercalate (names.take (names.length - k) ++ [".env"]))

/-- The directory of a user's settings: a variable names it, if its value is an absolute path, or
else it is in the user's home. -/
def settingsDirectory (env : Environment) : String :=
  match (env.find? "XDG_CONFIG_HOME").filter (·.startsWith "/"),
    (env.find? "HOME").filter (· ≠ "") with
  | some directory, _ => directory
  | none, some home => joinPath home ".config"
  | none, none => "."

/-- The settings file that is read where none is named. -/
def settingsFile (env : Environment) : String :=
  joinPath (joinPath (settingsDirectory env) "orca") "config.toml"

end Environment

end Stepwise
