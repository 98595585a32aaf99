import Stepwise.Step.Basic
import Stepwise.Json.Basic
import Stepwise.Text.Character

/-!
# Fields of steps

Readers of single fields of a step. Each takes the path of the step, which its fault carries.
Where a field may be missing it may be null as well.
-/

namespace Stepwise.Step

/-- Refuses a step for a reason. -/
def refuse {α : Type} (path reason : String) : Reading α := .fail (.invalidStep path reason)

/-- A letter or `_`, then any name characters. -/
def isNodeId (id : String) : Bool :=
  match id.toList with
  | [] => false
  | c :: rest => (Text.isLetter c || c == '_') && rest.all Text.isNameChar

/-- The fault of an id that is none. -/
def checkId (id : String) : Except Fault Unit :=
  if isNodeId id then .ok ()
  else .error (.invalidId id "must start with a letter or '_' and contain only [A-Za-z0-9_-]")

/-- The keywords, one of which every step has. -/
def keywords : List String := ["task", "sequence", "parallel", "if", "loop", "wait"]

/-- The one keyword of a step. -/
def keyword (path : String) (members : Table Json) : Reading String :=
  match keywords.filter (Table.contains members) with
  | [one] => .ok one
  | [] => refuse path ("expected one of: " ++ ", ".intercalate keywords)
  | many => refuse path ("ambiguous step: " ++ " + ".intercalate many)

/-- The id that a step gives itself. -/
def ownId (path : String) (members : Table Json) : Reading (Option String) :=
  match Table.find? members "id" with
  | none => .ok none
  | some (.str id) =>
    match checkId id with
    | .ok () => .ok (some id)
    | .error fault => .fail fault
  | some _ => refuse path "id must be a string"

/-- The tags of a step. -/
def tags (path : String) (members : Table Json) : Reading (Table Json) :=
  match Table.find? members "metadata" with
  | none => .ok []
  | some (.obj tags) => .ok tags
  | some _ => refuse path "metadata must be a mapping"

/-- The id and the tags of a step. -/
def head (path : String) (members : Table Json) : Reading StepHead := do
  return ⟨← ownId path members, ← tags path members⟩

/-- Reads a truth value, which has a default. -/
def flag (path : String) (members : Table Json) (name : String) (default : Bool) : Reading Bool :=
  match Table.find? members name with
  | none | some .null => .ok default
  | some (.bool b) => .ok b
  | some _ => refuse path (name ++ " must be a boolean")

/-- A number of seconds. -/
def duration (path : String) (members : Table Json) (name : String) : Reading (Option Duration) :=
  match Table.find? members name with
  | none | some .null => .ok none
  | some json =>
    match json.number? with
    | none => refuse path (name ++ " must be a non-negative number of seconds")
    | some x =>
      match Duration.ofSeconds x with
      | .ok d => .ok (some d)
      | .error e => refuse path (name ++ " is not a valid duration: " ++ e.message)

/-- Reads a count, which may be left out. -/
def size (path : String) (members : Table Json) (name : String) : Reading (Option UInt64) :=
  match Table.find? members name with
  | none | some .null => .ok none
  | some json =>
    match json.nat? with
    | some n => .ok (some (UInt64.ofNat n))
    | none => refuse path (name ++ " must be a non-negative integer")

/-- Reads how often a task may be retried, at most as often as its field can tell. -/
def retries (path : String) (members : Table Json) : Reading UInt32 :=
  match Table.find? members "retry_count" with
  | none => .ok 0
  | some json =>
    match json.nat? with
    | some n =>
      if n < UInt32.size then .ok (UInt32.ofNat n)
      else refuse path "retry_count must be a non-negative integer"
    | none => refuse path "retry_count must be a non-negative integer"

/-- One tool, or a list of tools. -/
def tools (path : String) (members : Table Json) : Reading (List String) :=
  match Table.find? members "tools" with
  | none | some .null => .ok []
  | some (.str tool) => .ok [tool]
  | some (.arr items) =>
    match items.mapM Json.str? with
    | some names => .ok names
    | none => refuse path "tools must be a list of strings"
  | some _ => refuse path "tools must be a list of strings"

/-- Reads the parameters of a task, which may be left out. -/
def parameters (path : String) (members : Table Json) : Reading (Table Json) :=
  match Table.find? members "parameters" with
  | none | some .null => .ok []
  | some (.obj parameters) => .ok parameters
  | some _ => refuse path "parameters must be a mapping"

/-- The fields of a task. -/
def taskSpec (path : String) (members : Table Json) : Reading TaskSpec :=
  match Table.find? members "task" with
  | some (.str name) => do
    let tools ← tools path members
    let parameters ← parameters path members
    let retries ← retries path members
    let timeout ← duration path members "timeout"
    let description := (Table.find? members "description").bind Json.str?
    return ⟨name, tools, parameters, retries, timeout, description⟩
  | _ => refuse path "task must be a string"

/-- The fields of a parallel block. -/
def parallelSpec (path : String) (members : Table Json) : Reading ParallelSpec := do
  let maxConcurrency ← size path members "max_concurrency"
  let failFast ← flag path members "fail_fast" ParallelSpec.standard.failFast
  let waitForAll ← flag path members "wait_for_all" ParallelSpec.standard.waitForAll
  return ⟨maxConcurrency, failFast, waitForAll⟩

/-- The text of a condition, which has more than blanks. -/
def conditionText? : Option Json → Option String
  | some (.str s) => if Text.isBlankText s then none else some s
  | _ => none

/-- The fields of a step with `if`. -/
def branchCondition (path : String) (members : Table Json) : Reading String :=
  match conditionText? (Table.find? members "if") with
  | some text => .ok text
  | none => refuse path "if must be a non-empty condition string"

/-- The fields of a loop or a wait: those of the object under the keyword, or the step's own if
the condition itself stands there. -/
def block (path : String) (members : Table Json) (name : String) : Reading (Table Json) :=
  match Table.find? members name with
  | some (.obj inner) => .ok inner
  | some (.str _) => .ok members
  | _ => refuse path (name ++ " must be a condition string or a mapping")

/-- The condition of a loop or a wait. -/
def blockCondition (path : String) (members inner : Table Json) (name : String) : Reading String :=
  match conditionText? ((Table.find? inner "condition").or (Table.find? members name)) with
  | some text => .ok text
  | none => refuse path (name ++ " requires a condition")

/-- The fields of a loop but its body. -/
def loopSpec (path : String) (members inner : Table Json) : Reading LoopSpec := do
  let condition ← blockCondition path members inner "loop"
  let maxIterations ← size path inner "max_iterations"
  let breakOnError ← flag path inner "break_on_error" true
  return ⟨condition, maxIterations, breakOnError⟩

/-- The fields of a wait. -/
def waitSpec (path : String) (members : Table Json) : Reading WaitSpec := do
  let inner ← block path members "wait"
  let condition ← blockCondition path members inner "wait"
  let timeout ← duration path inner "timeout"
  let pollInterval ← duration path inner "poll_interval"
  return ⟨condition, timeout, pollInterval⟩

end Stepwise.Step
