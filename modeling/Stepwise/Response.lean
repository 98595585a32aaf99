import Stepwise.Validation

/-!
# Responses

What a caller is told at the end: how the request ended, what came out, and what went wrong.
-/

namespace Stepwise

/-- How far a request has come. -/
inductive Status where
  | pending
  | running
  | completed
  | failed
  | cancelled
  | timedOut
deriving DecidableEq, Repr

namespace Status

/-- The name of a status, as it is written. -/
def text : Status → String
  | .pending => "pending"
  | .running => "running"
  | .completed => "completed"
  | .failed => "failed"
  | .cancelled => "cancelled"
  | .timedOut => "timed_out"

/-- The status of a name. -/
def ofText? : String → Option Status
  | "pending" => some .pending
  | "running" => some .running
  | "completed" => some .completed
  | "failed" => some .failed
  | "cancelled" => some .cancelled
  | "timed_out" => some .timedOut
  | _ => none

/-- The status that a value names. -/
def ofJson? (json : Json) : Option Status := json.name?.bind ofText?

/-- Nothing more will happen. -/
def isTerminal : Status → Bool
  | .pending | .running => false
  | .completed | .failed | .cancelled | .timedOut => true

/-- The status of a request that ended with a fault. -/
def ofFault : Fault → Status
  | .cancelled _ => .cancelled
  | .workflowTimeout _ => .timedOut
  | _ => .failed

end Status

/-- A response. The time is that from the request to the end. -/
structure Response where
  executionId : String
  status : Status
  success : Bool
  message : String
  result : Option Json
  validation : Option Report
  time : Duration
  error : Option String
  errorCode : Option String
  errorDetails : List Json
  retries : Nat

namespace Response

/-- A good end. -/
def completed (executionId message : String) (result : Option Json) (time : Duration) : Response :=
  ⟨executionId, .completed, true, message, result, none, time, none, none, [], 0⟩

/-- One entry for every blocking issue of an invalid workflow, and one for any other fault. -/
def detailsOf : Fault → List Json
  | .invalidWorkflow issues => (issues.filter Issue.isError).map Issue.toJson
  | fault => [fault.details]

/-- An end with a fault. -/
def failure (executionId : String) (status : Status) (fault : Fault) (time : Duration) : Response :=
  ⟨executionId, status, false, "Workflow " ++ status.text, none, none, time, some fault.message,
    some fault.code, detailsOf fault, 0⟩

/-- The members of a response in the order of its record. -/
def members (response : Response) : List (String × Json) :=
  [("execution_id", .str response.executionId),
    ("status", .str response.status.text),
    ("success", .bool response.success),
    ("message", .str response.message),
    ("result", response.result.getD .null),
    ("validation_result", .ofOption (fun report => .obj report.members) response.validation),
    ("execution_time", .float response.time.seconds),
    ("error", .ofOption .str response.error),
    ("error_code", .ofOption .str response.errorCode),
    ("error_details", .arr response.errorDetails),
    ("retries", .ofNat response.retries)]

end Response

end Stepwise
