import Stepwise.Json.Reader

/-!
# Arguments

What the words after the program's name ask for: a command with its options, a page of help, or
nothing that is understood. Options have a long name, and some a letter; a value follows as the
next word, or in the same one. After `--` no word is an option.
-/

namespace Stepwise.CommandLine

/-- The names of commands. -/
inductive CommandName where
  | run
  | validate
  | plan
  | config
deriving DecidableEq, Repr

namespace CommandName

/-- The command of a name. -/
def ofText? : String → Option CommandName
  | "run" => some .run
  | "validate" => some .validate
  | "plan" => some .plan
  | "config" => some .config
  | _ => none

/-- Whether a command is about a file. -/
def takesFile : CommandName → Bool
  | .config => false
  | _ => true

/-- Whether a command takes parameters and can answer in JSON. -/
def takesParameters : CommandName → Bool
  | .run => true
  | _ => false

end CommandName

/-- A command. -/
inductive Command where
  | run (file : String) (parameters : List (String × Json)) (asJson : Bool)
  | validate (file : String)
  | plan (file : String)
  | config

/-- A command, and the settings file that is named. -/
structure Invocation where
  settingsFile : Option String
  command : Command

/-- A page of help: on the program, on a command, or on help itself. -/
inductive Topic where
  | program
  | command (name : CommandName)
  | help
deriving DecidableEq, Repr

/-- What the words ask for. -/
inductive Asked where
  | invocation (invocation : Invocation)
  | help (topic : Topic)
  | version
  | misuse (reason : String)

/-- The options of a command as far as they were read; parameters stand last first. -/
structure Options where
  settingsFile : Option String
  file : Option String
  parameters : List (String × Json)
  asJson : Bool

/-- Whether a word is taken for an option. -/
def looksLikeOption (word : String) : Bool := word.startsWith "-" && word ≠ "-"

/-- Reads a parameter as it is given. Its value is JSON, or else a text. -/
def parameter? (word : String) : Option (String × Json) :=
  let cs := word.toList
  let name := cs.takeWhile (· ≠ '=')
  match cs.drop name.length with
  | '=' :: rest =>
    if name.isEmpty then none
    else
      let text := String.ofList rest
      some (String.ofList name, (Json.read? text).getD (.str text))
  | _ => none

/-- Splits a word at its first equals sign. -/
def splitValue (word : String) : String × Option String :=
  let name := word.toList.takeWhile (· ≠ '=')
  match word.toList.drop name.length with
  | _ :: rest => (String.ofList name, some (String.ofList rest))
  | [] => (word, none)

/-- The value of an option, in the same word or as the next one. -/
def valueOf? (attached next : Option String) : Option String :=
  match attached with
  | some value => some value
  | none => next.filter (fun word => !looksLikeOption word)

/-- Takes the name of a settings file; there can be only one, and not an empty one. -/
def Options.withSettingsFile? (options : Options) (path : String) : Option Options :=
  if path.isEmpty ∨ options.settingsFile.isSome then none
  else some { options with settingsFile := some path }

/-- Takes a word that is no option. -/
def Options.withWord? (options : Options) (name : CommandName) (word : String) : Option Options :=
  if !name.takesFile || word.isEmpty || options.file.isSome then none
  else some { options with file := some word }

/-- Takes a parameter. -/
def Options.withParameter? (options : Options) (word : String) : Option Options :=
  (parameter? word).map (fun parameter =>
    { options with parameters := parameter :: options.parameters })

/-- What options ask for at the end of the words; the settings file may have been named before
the command. -/
def Options.asked (options : Options) (name : CommandName) (named : Option String) : Asked :=
  let settingsFile := match options.settingsFile with
    | some path => some path
    | none => named
  match name, options.file with
  | .config, _ => .invocation ⟨settingsFile, .config⟩
  | .run, some file => .invocation ⟨settingsFile, .run file options.parameters.reverse options.asJson⟩
  | .validate, some file => .invocation ⟨settingsFile, .validate file⟩
  | .plan, some file => .invocation ⟨settingsFile, .plan file⟩
  | _, none => .misuse "no file is named"

/-- The words after `--`, none of which is an option. -/
def readWords (name : CommandName) (named : Option String) (options : Options) : List String → Asked
  | [] => options.asked name named
  | word :: rest =>
    match options.withWord? name word with
    | some options => readWords name named options rest
    | none => .misuse ("unexpected argument " ++ word)

/-- What a word does: it ends the reading, or it is taken, alone or with the next one. -/
inductive Step (α : Type) where
  | ends (asked : Asked)
  | alone (result : α)
  | withNext (result : α)

/-- The step of an option with a value. -/
def Step.ofValue {α : Type} (word : String) (attached next : Option String)
    (take : String → Option α) : Step α :=
  match valueOf? attached next with
  | none => .ends (.misuse ("no value for " ++ word))
  | some value =>
    match take value with
    | none => .ends (.misuse ("unexpected value for " ++ word))
    | some result => if attached.isSome then .alone result else .withNext result

/-- The step of a word that may be refused. -/
def Step.ofWord {α : Type} (word : String) : Option α → Step α
  | some result => .alone result
  | none => .ends (.misuse ("unexpected argument " ++ word))

/-- What a word after the name of a command does, other than `--`. -/
def optionStep (name : CommandName) (options : Options) (word : String) (next : Option String) :
    Step Options :=
  let refused : Step Options := .ofWord word none
  if word.startsWith "--" then
    let (option, attached) := splitValue word
    if option = "--help" then if attached.isNone then .ends (.help (.command name)) else refused
    else if option = "--config" then .ofValue word attached next options.withSettingsFile?
    else if !name.takesParameters then refused
    else if option = "--param" then .ofValue word attached next options.withParameter?
    else if option = "--json" && attached.isNone && !options.asJson then
      .alone { options with asJson := true }
    else refused
  else if looksLikeOption word then
    match word.toList with
    | _ :: 'h' :: _ => .ends (.help (.command name))
    | _ :: 'p' :: value =>
      let attached : Option String := match value with
        | [] => none
        | '=' :: value => some (String.ofList value)
        | value => some (String.ofList value)
      if name.takesParameters then .ofValue word attached next options.withParameter? else refused
    | _ => refused
  else .ofWord word (options.withWord? name word)

/-- Reads the words after the name of a command. -/
def readOptions (name : CommandName) (named : Option String) (options : Options) :
    List String → Asked
  | [] => options.asked name named
  | word :: rest =>
    if word = "--" then readWords name named options rest
    else
      match optionStep name options word rest.head? with
      | .ends asked => asked
      | .alone options => readOptions name named options rest
      | .withNext options =>
        match rest with
        | [] => options.asked name named
        | _ :: rest => readOptions name named options rest

/-- Reads the words after `help`. -/
def readTopic : List String → Asked
  | [] => .help .program
  | ["help"] => .help .help
  | [word] =>
    match CommandName.ofText? word with
    | some name => .help (.command name)
    | none => .misuse ("unknown command " ++ word)
  | words => .misuse ("unknown command " ++ " ".intercalate words)

/-- What an option before the name of a command does. -/
def programStep (named : Option String) (word : String) (next : Option String) : Step String :=
  let refused : Step String := .ofWord word none
  if word.startsWith "--" then
    let (option, attached) := splitValue word
    if option = "--help" && attached.isNone then .ends (.help .program)
    else if option = "--version" && attached.isNone then .ends .version
    else if option = "--config" then
      .ofValue word attached next (fun path =>
        if path.isEmpty ∨ named.isSome then none else some path)
    else refused
  else
    match word.toList with
    | '-' :: 'h' :: _ => .ends (.help .program)
    | '-' :: 'V' :: _ => .ends .version
    | _ => refused

/-- Reads the words up to the name of a command, and those after it. -/
def readCommand (named : Option String) : List String → Asked
  | [] => .misuse "no command is named"
  | word :: rest =>
    if word = "help" then readTopic rest
    else
      match CommandName.ofText? word with
      | some name => readOptions name named ⟨none, none, [], false⟩ rest
      | none =>
        match programStep named word rest.head? with
        | .ends asked => asked
        | .alone path => readCommand (some path) rest
        | .withNext path =>
          match rest with
          | [] => .misuse "no command is named"
          | _ :: rest => readCommand (some path) rest

/-- What the words after the program's name ask for. -/
def Asked.ofWords (words : List String) : Asked := readCommand none words

end Stepwise.CommandLine
