import Stepwise.CommandLine.Files
import Stepwise.CommandLine.Help
import Stepwise.Coordinator.Machine
import Stepwise.Environment
import Stepwise.Json.Printer
import Stepwise.Settings
import Stepwise.Workflow

/-!
# Sessions on the command line

One call of the program: its words, the environment and the files that it can read go in, and
what it prints and its exit code come out. Runs go by a clock that jumps to the next wait that is
over, and tasks are answered by echoing them. What was printed before a failure stays printed.
-/

namespace Stepwise.CommandLine

/-- What a call of the program has to go by; `steps` bounds how long runs may go on. -/
structure Call where
  words : List String
  env : Environment
  read : String → Found
  steps : Nat

/-- What a call of the program comes to. -/
structure Outcome where
  code : Nat
  out : String
  err : String
deriving DecidableEq, Repr

/-- Why a command failed: a fault, or a text that a run has left. -/
inductive Failure where
  | fault (fault : Fault)
  | remark (text : String)

/-- A command at work: it prints, and may fail. -/
abbrev Work := ExceptT Failure (StateM String)

/-- Prints a line. -/
def say (line : String) : Work Unit := modify (· ++ line ++ "\n")

/-- A value, or the failure of its fault. -/
def orFail {α : Type} : Except Fault α → Work α
  | .ok a => return a
  | .error fault => throw (.fault fault)

/-- The message of a fault with that of its cause. -/
def chained (fault : Fault) : String :=
  match fault with
  | .inputOutput text | .badYaml text | .badJson text => fault.message ++ ": " ++ text
  | fault => fault.message

/-- What is said about a failure. -/
def Failure.lines : Failure → String
  | .remark text => "Error: " ++ text ++ "\n"
  | .fault cause =>
    "Error: " ++ chained cause ++ "\n" ++ (cause.advice.elim "" (fun advice => "  Fix: " ++ advice ++ "\n"))

/-- The settings in effect: those of a file, and those of the environment. A settings file need
not be there. -/
def loadSettings (call : Call) (path : String) : Work Settings := do
  let settings ← match call.read path with
    | .absent _ => pure .empty
    | .unreadable obstacle =>
      throw (.fault (.badConfig ("Failed to read config file: " ++ obstacle.message)))
    | .text content => orFail (Settings.ofToml content)
  return settings.withEnvironment call.env

/-- The workflow of a file. -/
def loadWorkflow (call : Call) (path : String) : Work Workflow :=
  match call.read path with
  | .absent obstacle | .unreadable obstacle => throw (.fault (.inputOutput obstacle.message))
  | .text content => orFail (Workflow.ofYaml content)

/-- Runs a request to its end. -/
def respond (call : Call) (settings : Settings) (request : Request) : Work Response := do
  let policy ← orFail settings.policy
  match ((Coordinator.make policy .echo).call call.steps request).1 with
  | some response => return response
  | none => throw (.remark "the workflow did not end")

/-- Fails where a response does: with the issues if the workflow is invalid. -/
def ensureSuccess (response : Response) : Work Unit :=
  if response.success then return
  else
    match response.validation.filter (!·.isValid) with
    | some report => throw (.fault (.invalidWorkflow report.issues))
    | none => throw (.remark (response.error.getD response.message))

/-- Prints a response in words. -/
def sayResponse (response : Response) : Work Unit := do
  say ("Status: " ++ response.status.text ++ " in " ++ Decimal.fixed 2 response.time.seconds ++
    "s (retries: " ++ toString response.retries ++ ")")
  match response.result with
  | some (.obj results) =>
    say "Results:"
    for (id, result) in results do
      say ("  " ++ id ++ ": " ++ result.compact)
  | _ => return

/-- Runs a workflow. -/
def run (call : Call) (settingsPath file : String) (parameters : List (String × Json))
    (asJson : Bool) :
    Work Unit := do
  let settings ← loadSettings call settingsPath
  let workflow ← loadWorkflow call file
  let request ← orFail (workflow.toRequest .execute (Table.ofList parameters))
  if !asJson then
    say ("→ Running workflow: " ++ workflow.id ++ " (" ++ toString workflow.steps.length ++ " step(s))")
  let response ← respond call settings request
  if asJson then say ((Json.obj response.members).pretty 0) else sayResponse response
  ensureSuccess response

/-- Checks a workflow and prints what was found. -/
def validate (call : Call) (settingsPath file : String) : Work Unit := do
  let settings ← loadSettings call settingsPath
  let workflow ← loadWorkflow call file
  let response ← respond call settings (← orFail (workflow.toRequest .validateOnly []))
  for issue in (response.validation.map Report.issues).getD [] do
    say ("  " ++ issue.line)
    if let some suggestion := issue.suggestion then say ("    Fix: " ++ suggestion)
  ensureSuccess response
  say ("✓ Workflow '" ++ file ++ "' is valid")
  say ("  Id: " ++ workflow.id)
  say ("  Steps: " ++ toString workflow.steps.length)

/-- The member of a plan under a name. -/
def planned (plan : Option Json) (name : String) : Json := (plan.bind (·.member? name)).getD .null

/-- Prints in which order the nodes of a workflow would run. -/
def plan (call : Call) (settingsPath file : String) : Work Unit := do
  let settings ← loadSettings call settingsPath
  let workflow ← loadWorkflow call file
  let response ← respond call settings (← orFail (workflow.toRequest .dryRun []))
  ensureSuccess response
  say ("→ Plan for '" ++ workflow.id ++ "'")
  say ("  Nodes: " ++ (planned response.result "node_count").compact)
  let stages := ((planned response.result "execution_order").list? some).getD []
  for (stage, i) in stages.zipIdx do
    let ids := ((stage.list? some).getD []).filterMap Json.str?
    say ("  Stage " ++ toString (i + 1) ++ ": " ++ ", ".intercalate ids)
  let seconds := ((planned response.result "estimated_duration").number?).getD 0
  say ("  Estimated duration: " ++ Decimal.plain.render seconds ++ "s")

/-- Prints the settings in effect. -/
def showSettings (call : Call) (settingsPath : String) : Work Unit := do
  let settings ← loadSettings call settingsPath
  match settings.toToml? with
  | none => throw (.remark ("failed to render config: " ++ Settings.unwritable))
  | some text =>
    say ("# " ++ settingsPath)
    say text

/-- The settings file of a call. -/
def Invocation.settingsPath (invocation : Invocation) (env : Environment) : String :=
  invocation.settingsFile.getD env.settingsFile

/-- The files that a call may read. -/
def Invocation.paths (invocation : Invocation) (env : Environment) : List String :=
  invocation.settingsPath env ::
    match invocation.command with
    | .run file _ _ | .validate file | .plan file => [file]
    | .config => []

/-- Does what a call asks for. -/
def Invocation.work (invocation : Invocation) (call : Call) : Work Unit :=
  let settingsPath := invocation.settingsPath call.env
  match invocation.command with
  | .run file parameters asJson => run call settingsPath file parameters asJson
  | .validate file => validate call settingsPath file
  | .plan file => plan call settingsPath file
  | .config => showSettings call settingsPath

/-- What a call of the program comes to. -/
def Call.outcome (call : Call) : Outcome :=
  match Asked.ofWords call.words with
  | .misuse reason => ⟨2, "", complaint reason⟩
  | .help topic => ⟨0, topic.page, ""⟩
  | .version => ⟨0, versionLine, ""⟩
  | .invocation invocation =>
    match (invocation.work call).run.run "" with
    | (.ok (), out) => ⟨0, out, ""⟩
    | (.error failure, out) => ⟨1, out, failure.lines⟩

end Stepwise.CommandLine
