import Stepwise.Context
import Stepwise.Node.Record

/-!
# Results of runs

What a run leaves behind that did not end in a fault.
-/

namespace Stepwise

/-- How a run ended. -/
inductive RunEnding where
  | completed
  | failed
  | cancelled
deriving DecidableEq, Repr

namespace RunEnding

/-- The name of an end, as it is written. -/
def text : RunEnding → String
  | completed => "completed"
  | failed => "failed"
  | cancelled => "cancelled"

/-- The end of a name. -/
def ofText? : String → Option RunEnding
  | "completed" => some completed
  | "failed" => some failed
  | "cancelled" => some cancelled
  | _ => none

/-- The end that a value names. -/
def ofJson? (json : Json) : Option RunEnding := json.name?.bind ofText?

end RunEnding

/-- The end of a run, with the value of its root, and with the results and the counts at that
time. -/
structure RunResult where
  ending : RunEnding
  output : Json
  error : Option String
  results : Table Json
  counts : Counts

namespace RunResult

/-- The result of a run that leaves a context. -/
def ofContext (context : Context) (ending : RunEnding) (output : Json) (error : Option String) :
    RunResult :=
  ⟨ending, output, error, context.results, context.counts⟩

/-- The run came to its end. -/
def isSuccess (result : RunResult) : Bool := result.ending = .completed

/-- The run was cancelled. -/
def isCancelled (result : RunResult) : Bool := result.ending = .cancelled

/-- A result as a record, without the time that the run took. -/
def members (result : RunResult) : List (String × Json) :=
  [("status", .str result.ending.text), ("success", .bool result.isSuccess),
    ("result", .obj result.results), ("output", result.output),
    ("metadata", .ofMembers
      ([("completed_nodes", .ofNat result.counts.completed),
        ("failed_nodes", .ofNat result.counts.failed),
        ("cancelled_nodes", .ofNat result.counts.cancelled)]
        ++ optionalMember "error" Json.str result.error))]

end RunResult

end Stepwise
