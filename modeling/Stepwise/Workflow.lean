import Stepwise.Fault
import Stepwise.Request
import Stepwise.Yaml.Reader

/-!
# Workflow files

A workflow file names its schema, the workflow and its steps, and may give parameters, a timeout
in seconds and a number of retries. `Workflow.toRequest` makes a request of it, in which the
parameters of the caller win over those of the file.
-/

namespace Stepwise

/-- A workflow as its file gives it. -/
structure Workflow where
  schema : String
  id : String
  description : Option String
  parameters : Table Json
  timeout : Option Float
  maxRetries : Option UInt32
  steps : List Json

namespace Workflow

/-- The schema that is understood. -/
def schemaVersion : String := "orca/workflow@0.1"

/-- The names of the fields, in the order in which an array gives them. -/
def fieldNames : List String :=
  ["schema", "id", "description", "parameters", "timeout", "max_retries", "steps"]

/-- Reads the record of a workflow. -/
def ofJson? (json : Json) : Option Workflow := do
  let fields ← json.fields? fieldNames
  let schema ← fields.required? "schema" Json.str?
  let id ← fields.required? "id" Json.str?
  let description ← fields.optional? "description" Json.str?
  let parameters ← fields.defaulted? "parameters" Json.table? []
  let timeout ← fields.optional? "timeout" Json.number?
  let maxRetries ← fields.optional? "max_retries" Json.uint32?
  let steps ← fields.required? "steps" (Json.list? some)
  return ⟨schema, id, description, parameters, timeout, maxRetries, steps⟩

/-- Reads a workflow from the root of a document. Its fields and the parameters or steps in them
are two of the levels that a document may have. -/
def ofRoot (targets : Yaml.Targets) (root : Yaml.Node) : Yaml.Visit Workflow := do
  let fields ← targets.fields fieldNames root
  let required {α : Type} (name : String) (read : Yaml.Node → Yaml.Visit α) : Yaml.Visit α :=
    match Table.find? fields name with
    | some node => read node
    | none => failure
  let optional {α : Type} (name : String) (read : Yaml.Node → Yaml.Visit α) :
      Yaml.Visit (Option α) :=
    match Table.find? fields name with
    | some node => targets.optional read node
    | none => return none
  let value := targets.value (Yaml.deepest - 2)
  let schema ← required "schema" targets.text
  let id ← required "id" targets.text
  let description ← optional "description" targets.text
  let entry := fun (name, node) => do return ((name : String), ← value node)
  let parameters ← match Table.find? fields "parameters" with
    | some node => do pure (Table.ofList (← (← targets.entries node).mapM entry))
    | none => pure []
  let timeout ← optional "timeout" targets.double
  let maxRetries ← optional "max_retries" (targets.natBelow UInt32.size)
  let steps ← required "steps" (fun node => do (← targets.items node).mapM value)
  return ⟨schema, id, description, parameters, timeout, maxRetries.map UInt32.ofNat, steps⟩

/-- Refuses a workflow of another schema. -/
def checkSchema (workflow : Workflow) : Except Fault Workflow :=
  if workflow.schema = schemaVersion then .ok workflow
  else .error (.wrongSchema schemaVersion workflow.schema)

/-- Reads the text of a workflow file. -/
def ofYaml (text : String) : Except Fault Workflow :=
  match Yaml.read? ofRoot text with
  | some workflow => workflow.checkSchema
  | none => .error (.badYaml "not a workflow")

/-- The request to run a workflow, with some parameters of the caller's. -/
def toRequest (workflow : Workflow) (mode : Mode) (overrides : Table Json) :
    Except Fault Request := do
  let timeout ← match workflow.timeout with
    | none => pure none
    | some seconds =>
      match Duration.ofSeconds seconds with
      | .ok duration => pure (some duration)
      | .error problem => throw (.invalidStep "timeout" problem.message)
  return {
    Request.make workflow.id workflow.steps with
    mode
    parameters := Table.merge workflow.parameters overrides
    timeout
    maxRetries := workflow.maxRetries }

end Workflow

end Stepwise
