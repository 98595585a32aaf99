import Stepwise.Response
import Stepwise.Timestamp

/-!
# Repositories

Records of ended executions. A repository keeps one record for each execution id, the one saved
last, and finds those of a workflow in the order of their times.
-/

namespace Stepwise

/-- What is kept of an ended execution. -/
structure ExecutionRecord where
  executionId : String
  workflowId : String
  status : Status
  success : Bool
  result : Json
  error : Option String
  errorCode : Option String
  retries : Nat
  time : Float
  recordedAt : Timestamp

namespace ExecutionRecord

/-- The record of a response. -/
def ofResponse (workflowId : String) (response : Response) (recordedAt : Timestamp) :
    ExecutionRecord where
  executionId := response.executionId
  workflowId := workflowId
  status := response.status
  success := response.success
  result := response.result.getD .null
  error := response.error
  errorCode := response.errorCode
  retries := response.retries
  time := response.time.seconds
  recordedAt := recordedAt

/-- The record of an execution, as it is written. -/
def toJson (record : ExecutionRecord) : Json :=
  .ofMembers
    [("execution_id", .str record.executionId),
      ("workflow_id", .str record.workflowId),
      ("status", .str record.status.text),
      ("success", .bool record.success),
      ("result", record.result),
      ("error", .ofOption .str record.error),
      ("error_code", .ofOption .str record.errorCode),
      ("retries", .ofNat record.retries),
      ("execution_time", .float record.time),
      ("recorded_at", .str record.recordedAt.text)]

/-- The names of the fields, in the order in which an array gives them. -/
def fieldNames : List String :=
  ["execution_id", "workflow_id", "status", "success", "result", "error", "error_code", "retries",
    "execution_time", "recorded_at"]

/-- An execution from its record, without fields that it does not have. -/
def ofJson? (json : Json) : Option ExecutionRecord := do
  let fields ← json.fields? fieldNames
  let executionId ← fields.required? "execution_id" Json.str?
  let workflowId ← fields.required? "workflow_id" Json.str?
  let status ← fields.required? "status" Status.ofJson?
  let success ← fields.required? "success" Json.bool?
  let result ← fields.required? "result" some
  let error ← fields.absent? "error" Json.str?
  let errorCode ← fields.absent? "error_code" Json.str?
  let retries ← fields.required? "retries" (Json.natBelow? UInt32.size)
  let time ← fields.required? "execution_time" Json.number?
  let recordedAt ← fields.required? "recorded_at" (fun j => j.str?.bind Timestamp.read?)
  return ⟨executionId, workflowId, status, success, result, error, errorCode, retries, time,
    recordedAt⟩

end ExecutionRecord

/-- The records of ended executions, in the order in which they were saved. -/
structure Repository where
  records : List ExecutionRecord

namespace Repository

/-- The repository before anything was saved. -/
def empty : Repository := ⟨[]⟩

/-- Saves a record in the place of any other of its execution. -/
def save (repository : Repository) (record : ExecutionRecord) : Repository :=
  ⟨repository.records.filter (fun r => r.executionId ≠ record.executionId) ++ [record]⟩

/-- The record of an execution. -/
def get? (repository : Repository) (executionId : String) : Option ExecutionRecord :=
  repository.records.find? (fun r => r.executionId = executionId)

/-- The records of a workflow by their times; of two with one time the one saved first comes
first. -/
def ofWorkflow (repository : Repository) (workflowId : String) : List ExecutionRecord :=
  (repository.records.filter (fun r => r.workflowId = workflowId)).mergeSort
    (fun a b => !b.recordedAt.isBefore a.recordedAt)

/-- How many executions have a record. -/
def size (repository : Repository) : Nat := repository.records.length

/-- One line about a repository. -/
def summary (repository : Repository) : String :=
  "InMemoryRepository \x7b len: " ++ toString repository.size ++ " \x7d"

end Repository

end Stepwise
