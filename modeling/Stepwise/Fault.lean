import Stepwise.Issue

/-!
# Faults

Everything that can go wrong, by its cause. A fault has a code, a message, advice on how to mend
it, and details for programs; `isRetryable` says whether running a workflow again may help.
-/

namespace Stepwise

/-- A cause of failure. -/
inductive Fault where
  | unreadable (details : String)
  | invalidStep (path reason : String)
  | duplicateId (id : String)
  | invalidId (id reason : String)
  | wrongSchema (expected actual : String)
  | invalidWorkflow (issues : List Issue)
  | taskFailed (task reason : String)
  | retriesExhausted (nodeId : String) (attempts : Nat) (lastError : String)
  | nodeFailed (nodeId reason : String)
  | workflowTimeout (millis : Nat)
  | taskTimeout (task : String) (millis : Nat)
  | cancelled (executionId : String)
  | concurrency (reason : String)
  | callbackRefused (executionId reason : String)
  | unknownExecution (executionId : String)
  | badExpression (expression : String) (position : Nat) (details : String)
  | missingReference (reference : String)
  | incomparable (left op right : String)
  | badConfig (reason : String)
  | inputOutput (text : String)
  | badYaml (text : String)
  | badJson (text : String)
  | repository (reason : String)
deriving DecidableEq, Repr

namespace Fault

/-- The blocking issues on one line. -/
def blockingText (issues : List Issue) : String :=
  match issues.filter Issue.isError with
  | [] => "no blocking issues"
  | [issue] => issue.line
  | errors => toString errors.length ++ " errors: " ++ "; ".intercalate (errors.map Issue.line)

/-- The code of a fault's kind. -/
def code : Fault → String
  | .unreadable .. => "ORCA-001"
  | .invalidStep .. => "ORCA-002"
  | .duplicateId .. => "ORCA-003"
  | .invalidId .. => "ORCA-004"
  | .wrongSchema .. => "ORCA-005"
  | .invalidWorkflow .. => "ORCA-010"
  | .taskFailed .. => "ORCA-020"
  | .retriesExhausted .. => "ORCA-021"
  | .nodeFailed .. => "ORCA-022"
  | .workflowTimeout .. => "ORCA-030"
  | .taskTimeout .. => "ORCA-031"
  | .cancelled .. => "ORCA-032"
  | .concurrency .. => "ORCA-040"
  | .callbackRefused .. => "ORCA-041"
  | .unknownExecution .. => "ORCA-042"
  | .badExpression .. => "ORCA-050"
  | .missingReference .. => "ORCA-051"
  | .incomparable .. => "ORCA-052"
  | .badConfig .. => "ORCA-090"
  | .inputOutput .. => "ORCA-091"
  | .badYaml .. => "ORCA-092"
  | .badJson .. => "ORCA-093"
  | .repository .. => "ORCA-094"

/-- What happened, without the code. -/
def description : Fault → String
  | .unreadable details => "Failed to parse workflow: " ++ details
  | .invalidStep path reason => "Invalid step at " ++ path ++ ": " ++ reason
  | .duplicateId id => "Duplicate node id '" ++ id ++ "'"
  | .invalidId id reason => "Invalid node id '" ++ id ++ "': " ++ reason
  | .wrongSchema expected actual =>
    "Invalid schema version: expected '" ++ expected ++ "', got '" ++ actual ++ "'"
  | .invalidWorkflow issues => "Workflow validation failed: " ++ blockingText issues
  | .taskFailed task reason => "Task '" ++ task ++ "' failed: " ++ reason
  | .retriesExhausted id attempts lastError =>
    "Node '" ++ id ++ "' failed after " ++ toString attempts ++ " attempt(s): " ++ lastError
  | .nodeFailed id reason => "Node '" ++ id ++ "' failed: " ++ reason
  | .workflowTimeout ms => "Workflow execution timed out after " ++ toString ms ++ "ms"
  | .taskTimeout task ms => "Task '" ++ task ++ "' timed out after " ++ toString ms ++ "ms"
  | .cancelled id => "Execution '" ++ id ++ "' was cancelled"
  | .concurrency reason => "Concurrency misconfiguration: " ++ reason
  | .callbackRefused id reason => "Cannot register callback for '" ++ id ++ "': " ++ reason
  | .unknownExecution id => "Execution '" ++ id ++ "' not found"
  | .badExpression expression position details =>
    "Invalid expression '" ++ expression ++ "' at position " ++ toString position ++ ": " ++ details
  | .missingReference reference => "Reference '" ++ reference ++ "' not found"
  | .incomparable left op right => "Cannot compare " ++ left ++ " " ++ op ++ " " ++ right
  | .badConfig reason => "Configuration error: " ++ reason
  | .inputOutput text => "IO error: " ++ text
  | .badYaml text => "YAML error: " ++ text
  | .badJson text => "JSON error: " ++ text
  | .repository reason => "Repository error: " ++ reason

/-- The code and what happened. -/
def message (fault : Fault) : String := "[" ++ fault.code ++ "] " ++ fault.description

/-- Whether running the whole workflow again may help. -/
def isRetryable : Fault → Bool
  | .unreadable .. | .invalidStep .. | .duplicateId .. | .invalidId .. | .wrongSchema ..
  | .invalidWorkflow .. | .cancelled .. | .concurrency .. | .callbackRefused .. => false
  | _ => true

/-- A cancellation is told from all other faults. -/
def isCancelled : Fault → Bool
  | .cancelled .. => true
  | _ => false

/-- How to mend a fault; a cancellation needs no mending. -/
def advice : Fault → Option String
  | .unreadable .. => some "Check YAML syntax: indentation and quoting"
  | .invalidStep .. => some "Each step needs one of: task, sequence, parallel, if, loop, wait"
  | .duplicateId .. => some "Use unique id: values across the workflow"
  | .invalidId .. => some "Node ids start with a letter or '_' and contain only [A-Za-z0-9_-]"
  | .wrongSchema .. => some "Use 'orca/workflow@0.1' as the schema version"
  | .invalidWorkflow .. => some "Run `orca validate` to list every issue"
  | .taskFailed .. | .nodeFailed .. => some "Check the tool configuration and task parameters"
  | .retriesExhausted .. => some "Increase retry_count or fix the failing task"
  | .workflowTimeout .. => some "Raise the workflow timeout or split the workflow"
  | .taskTimeout .. => some "Raise the task timeout: value"
  | .cancelled .. => none
  | .concurrency .. => some "Set max_concurrent_workflows >= 1 and use unique execution ids"
  | .callbackRefused .. => some "Register callbacks with a non-empty execution id"
  | .unknownExecution .. => some "The execution may have already finished"
  | .badExpression .. => some "Use comparisons like result.task.score > 0.5 joined by and/or"
  | .missingReference .. =>
    some "Reference an earlier node with result.<node_id> or a variable by name"
  | .incomparable .. => some "Compare values of the same type"
  | .badConfig .. => some "Check ~/.config/orca/config.toml"
  | .inputOutput .. => some "Check file path and permissions"
  | .badYaml .. => some "Check YAML syntax: indentation and quoting"
  | .badJson .. => some "Check JSON syntax"
  | .repository .. => some "Check the result repository backend"

/-- The parts of a fault for programs. -/
def details (fault : Fault) : Json :=
  match fault with
  | .invalidWorkflow issues => .obj [("issues", .arr ((issues.filter Issue.isError).map Issue.toJson))]
  | .retriesExhausted id attempts lastError =>
    .obj [("attempts", .int attempts), ("last_error", .str lastError), ("node_id", .str id)]
  | .nodeFailed id reason => .obj [("node_id", .str id), ("reason", .str reason)]
  | .workflowTimeout ms => .obj [("timeout_ms", .int ms)]
  | fault => .obj [("message", .str fault.message)]

/-- The value kept for a node that ended with a fault. -/
def value (fault : Fault) (nodeId : String) : Json :=
  .obj [("error", .str fault.message), ("error_code", .str fault.code), ("node_id", .str nodeId)]

end Fault

end Stepwise
