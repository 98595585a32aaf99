import Stepwise.Json.Decode

/-!
# Requests

What a caller asks for: the steps of a workflow, what to do with them, and what the run may use.
-/

namespace Stepwise

/-- How far a request goes: the check alone, the check and the plan, or the run. -/
inductive Mode where
  | validateOnly
  | dryRun
  | execute
deriving DecidableEq, Repr

namespace Mode

/-- The name of a mode, as it is written. -/
def text : Mode → String
  | .validateOnly => "validate_only"
  | .dryRun => "dry_run"
  | .execute => "execute"

/-- The mode of a name. -/
def ofText? : String → Option Mode
  | "validate_only" => some .validateOnly
  | "dry_run" => some .dryRun
  | "execute" => some .execute
  | _ => none

end Mode

/-- A request. -/
structure Request where
  workflowId : String
  executionId : Option String
  steps : List Json
  mode : Mode
  parameters : Table Json
  timeout : Option Duration
  maxRetries : Option UInt32

namespace Request

/-- The request to run some steps, with nothing else said. -/
def make (workflowId : String) (steps : List Json) : Request :=
  ⟨workflowId, none, steps, .execute, [], none, none⟩

/-- The record of a request, with the timeout in seconds. -/
def toJson (request : Request) : Json :=
  .ofMembers
    [("workflow_id", .str request.workflowId),
      ("execution_id", .ofOption .str request.executionId),
      ("steps", .arr request.steps),
      ("mode", .str request.mode.text),
      ("parameters", .obj request.parameters),
      ("timeout", .ofOption (fun d => .float d.seconds) request.timeout),
      ("max_retries", .ofOption (fun n => .int n.toNat) request.maxRetries)]

/-- The names of the fields, in the order in which an array gives them. -/
def fieldNames : List String :=
  ["workflow_id", "execution_id", "steps", "mode", "parameters", "timeout", "max_retries"]

/-- Reads the record of a request. -/
def ofJson? (json : Json) : Option Request := do
  let fields ← json.fields? fieldNames
  let workflowId ← fields.required? "workflow_id" Json.str?
  let executionId ← fields.optional? "execution_id" Json.str?
  let steps ← fields.required? "steps" (Json.list? some)
  let mode ← fields.defaulted? "mode" (fun j => j.name?.bind Mode.ofText?) .execute
  let parameters ← fields.defaulted? "parameters" Json.table? []
  let timeout ← fields.optional? "timeout" Json.seconds?
  let maxRetries ← fields.optional? "max_retries" Json.uint32?
  return ⟨workflowId, executionId, steps, mode, parameters, timeout, maxRetries⟩

end Request

end Stepwise
