import Stepwise.CommandLine.Session

/-!
# The program

The outer layer: it fetches the variables and the files that a call asks for, and prints what the
call comes to.
-/

namespace Stepwise.CommandLine

/-- Why a file could not be read. The number of a cause comes with either sign. -/
def Obstacle.ofError : IO.Error → Obstacle
  | .noFileOrDirectory .. => .missing
  | .permissionDenied .. => .denied
  | .inappropriateType _ code _ => if code = 20 ∨ code = 0 - 20 then .notDirectory else .directory
  | error => .other (toString error)

/-- What a path leads to. -/
def fetch (path : String) : IO Found := do
  try
    match String.fromUTF8? (← IO.FS.readBinFile path) with
    | some text => return .text text
    | none => return .unreadable (.other "stream did not contain valid UTF-8")
  catch error =>
    let obstacle := Obstacle.ofError error
    return if obstacle = .missing ∨ obstacle = .notDirectory then .absent obstacle
      else .unreadable obstacle

/-- The variables of this process. -/
def inherited : IO Environment := do
  match ← fetch "/proc/self/environ" with
  | .text text =>
    return Table.ofList ((text.splitOn "\x00").filterMap (fun entry =>
      match splitValue entry with
      | (name, some value) => some (name, value)
      | _ => none))
  | _ => return []

/-- Adds the variables of the first `.env` file of some places. -/
def addFirstFile (env : Environment) : List String → IO Environment
  | [] => return env
  | path :: rest => do
    match ← fetch path with
    | .text text => return env.addFile text
    | _ => addFirstFile env rest

end Stepwise.CommandLine

open Stepwise Stepwise.CommandLine in
/-- Does what the words ask for. A workflow may go on for a thousand million steps. -/
def main (words : List String) : IO UInt32 := do
  let directory := (← IO.currentDir).toString
  let env ← addFirstFile (← inherited) (Environment.places directory)
  let paths : List String := match Asked.ofWords words with
    | .invocation invocation => invocation.paths env
    | _ => []
  let found ← paths.mapM (fun path => return (path, ← fetch path))
  let outcome := Call.outcome
    { words := words
      env := env
      read := fun path => ((found.find? (·.1 = path)).map Prod.snd).getD (.absent .missing)
      steps := 1000000000 }
  (← IO.getStdout).putStr outcome.out
  (← IO.getStderr).putStr outcome.err
  return UInt32.ofNat outcome.code
