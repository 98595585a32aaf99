import Stepwise.Node.Record

/-!
# Events

What happens in runs, told as a list of events. A log numbers its events from zero in the order
in which they happen.
-/

namespace Stepwise

/-- What happened. -/
inductive Event where
  | workflowStarted (workflowId executionId : String) (nodeCount : Nat)
  | workflowRetrying (executionId : String) (attempt backoffMillis : Nat) (error : String)
  | workflowCompleted (executionId : String) (millis : Nat)
  | workflowFailed (executionId error code : String)
  | workflowCancelled (executionId : String)
  | nodeStarted (nodeId : String) (nodeType : NodeType)
  | nodeCompleted (nodeId : String) (output : Json) (millis : Nat)
  | nodeFailed (nodeId error : String) (millis : Nat)
  | nodeCancelled (nodeId : String)
  | taskRetrying (nodeId : String) (attempt : Nat) (error : String)

namespace Event

/-- The node that an event is about. -/
def nodeId? : Event → Option String
  | .workflowStarted .. | .workflowRetrying .. | .workflowCompleted .. | .workflowFailed ..
  | .workflowCancelled .. => none
  | .nodeStarted id _ => some id
  | .nodeCompleted id _ _ => some id
  | .nodeFailed id _ _ => some id
  | .nodeCancelled id => some id
  | .taskRetrying id _ _ => some id

/-- An event about a run as a whole. -/
def isWorkflowEvent (event : Event) : Bool := event.nodeId?.isNone

/-- The name of an event's kind. -/
def name : Event → String
  | .workflowStarted .. => "workflow_started"
  | .workflowRetrying .. => "workflow_retrying"
  | .workflowCompleted .. => "workflow_completed"
  | .workflowFailed .. => "workflow_failed"
  | .workflowCancelled .. => "workflow_cancelled"
  | .nodeStarted .. => "node_started"
  | .nodeCompleted .. => "node_completed"
  | .nodeFailed .. => "node_failed"
  | .nodeCancelled .. => "node_cancelled"
  | .taskRetrying .. => "task_retrying"

/-- What is written of an event, but for its kind. -/
def members : Event → List (String × Json)
  | .workflowStarted workflowId executionId nodeCount =>
    [("workflow_id", .str workflowId), ("execution_id", .str executionId),
      ("node_count", .ofNat nodeCount)]
  | .workflowRetrying executionId attempt backoffMillis error =>
    [("execution_id", .str executionId), ("attempt", .ofNat attempt),
      ("backoff_ms", .ofNat backoffMillis), ("error", .str error)]
  | .workflowCompleted executionId millis =>
    [("execution_id", .str executionId), ("duration_ms", .ofNat millis)]
  | .workflowFailed executionId error code =>
    [("execution_id", .str executionId), ("error", .str error), ("error_code", .str code)]
  | .workflowCancelled executionId => [("execution_id", .str executionId)]
  | .nodeStarted nodeId nodeType =>
    [("node_id", .str nodeId), ("node_type", .str nodeType.label)]
  | .nodeCompleted nodeId output millis =>
    [("node_id", .str nodeId), ("output", output), ("duration_ms", .ofNat millis)]
  | .nodeFailed nodeId error millis =>
    [("node_id", .str nodeId), ("error", .str error), ("duration_ms", .ofNat millis)]
  | .nodeCancelled nodeId => [("node_id", .str nodeId)]
  | .taskRetrying nodeId attempt error =>
    [("node_id", .str nodeId), ("attempt", .ofNat attempt), ("error", .str error)]

/-- An event as a value. -/
def toJson (event : Event) : Json := .ofMembers (("type", .str event.name) :: event.members)

/-- The names of the fields of an event, in the order in which an array gives them. -/
def fieldNames : String → Option (List String)
  | "workflow_started" => some ["workflow_id", "execution_id", "node_count"]
  | "workflow_retrying" => some ["execution_id", "attempt", "backoff_ms", "error"]
  | "workflow_completed" => some ["execution_id", "duration_ms"]
  | "workflow_failed" => some ["execution_id", "error", "error_code"]
  | "workflow_cancelled" => some ["execution_id"]
  | "node_started" => some ["node_id", "node_type"]
  | "node_completed" => some ["node_id", "output", "duration_ms"]
  | "node_failed" => some ["node_id", "error", "duration_ms"]
  | "node_cancelled" => some ["node_id"]
  | "task_retrying" => some ["node_id", "attempt", "error"]
  | _ => none

/-- Reads the fields of the event of a name. -/
def ofFields? (name : String) (fields : Json.Fields) : Option Event := do
  let text (field : String) : Option String := fields.required? field Json.str?
  let word (field : String) : Option Nat := fields.required? field (Json.natBelow? UInt32.size)
  let long (field : String) : Option Nat := fields.required? field (Json.natBelow? UInt64.size)
  match name with
  | "workflow_started" =>
    return .workflowStarted (← text "workflow_id") (← text "execution_id") (← long "node_count")
  | "workflow_retrying" =>
    return .workflowRetrying (← text "execution_id") (← word "attempt") (← long "backoff_ms")
      (← text "error")
  | "workflow_completed" => return .workflowCompleted (← text "execution_id") (← long "duration_ms")
  | "workflow_failed" =>
    return .workflowFailed (← text "execution_id") (← text "error") (← text "error_code")
  | "workflow_cancelled" => return .workflowCancelled (← text "execution_id")
  | "node_started" =>
    let nodeType ← fields.required? "node_type" (fun j => j.name?.bind NodeType.ofLabel?)
    return .nodeStarted (← text "node_id") nodeType
  | "node_completed" =>
    return .nodeCompleted (← text "node_id") (← fields.required? "output" some)
      (← long "duration_ms")
  | "node_failed" =>
    return .nodeFailed (← text "node_id") (← text "error") (← long "duration_ms")
  | "node_cancelled" => return .nodeCancelled (← text "node_id")
  | "task_retrying" =>
    return .taskRetrying (← text "node_id") (← word "attempt") (← text "error")
  | _ => none

/-- Reads an event: an object with its name under `type`, or an array of the name and the
fields. -/
def ofJson? (json : Json) : Option Event := do
  match json with
  | .obj members =>
    let name ← (Table.find? members "type").bind Json.str?
    ofFields? name ⟨members, false⟩
  | .arr (tag :: items) =>
    let name ← tag.str?
    let fields ← (Json.arr items).fields? (← fieldNames name)
    ofFields? name fields
  | _ => none

end Event

/-- An event with its number and the time at which it happened. -/
structure Entry where
  id : Nat
  time : Nat
  event : Event

/-- The events so far, the first one first. -/
structure EventLog where
  entries : List Entry

namespace EventLog

/-- The log before anything was told. -/
def empty : EventLog := ⟨[]⟩

/-- The number of the next event. -/
def size (log : EventLog) : Nat := log.entries.length

/-- Adds an event. -/
def emit (log : EventLog) (time : Nat) (event : Event) : EventLog :=
  ⟨log.entries ++ [⟨log.size, time, event⟩]⟩

/-- The events about a node. -/
def ofNode (log : EventLog) (id : String) : List Entry :=
  log.entries.filter (fun entry => entry.event.nodeId? = some id)

/-- The events about runs as a whole. -/
def workflowEvents (log : EventLog) : List Entry :=
  log.entries.filter (fun entry => entry.event.isWorkflowEvent)

/-- One line about a log. -/
def summary (log : EventLog) : String := "EventLog \x7b len: " ++ toString log.size ++ " \x7d"

end EventLog

end Stepwise
