import Stepwise.Fault
import Stepwise.Node.Basic
import Stepwise.Path.Basic

/-!
# Contexts

The state of one run: its variables, the results so far, how far each node has come, and whether
the run was cancelled. A node goes from pending to running to an end, and only rearming brings it
back. The record of a node has a field for everything that is known of it. Times are
milliseconds on the clock of the run.
-/

namespace Stepwise

/-- How a node ended. -/
inductive Ending where
  | completed
  | failed (error : String)
  | cancelled (error : Option String)
deriving DecidableEq, Repr

/-- The states of a node. -/
inductive NodeState where
  | pending
  | running
  | completed
  | failed
  | cancelled
deriving DecidableEq, Repr

namespace NodeState

/-- The name of a state, as it is told. -/
def label : NodeState → String
  | .pending => "PENDING"
  | .running => "RUNNING"
  | .completed => "COMPLETED"
  | .failed => "FAILED"
  | .cancelled => "CANCELLED"

/-- No further change comes but by rearming. -/
def isTerminal : NodeState → Bool
  | .pending | .running => false
  | .completed | .failed | .cancelled => true

end NodeState

namespace Ending

/-- The state of a node that has ended in this way. -/
def state : Ending → NodeState
  | .completed => .completed
  | .failed _ => .failed
  | .cancelled _ => .cancelled

/-- The text of the fault, if there is one. -/
def error? : Ending → Option String
  | .completed => none
  | .failed error => some error
  | .cancelled error => error

end Ending

/-- The record of one node: how far it has come, when it started and ended, what it came to, and
how often it was tried again. Each operation writes the fields that it is about and no others, so
that the fields go together is a property of the operations. -/
structure Phase where
  state : NodeState
  startedAt? : Option Nat
  endedAt? : Option Nat
  result? : Option Json
  error? : Option String
  retries : Nat

namespace Phase

/-- The record of a node that nothing has happened to. -/
def pending : Phase := ⟨.pending, none, none, none, none, 0⟩

/-- The record of a node that runs. -/
def running (since retries : Nat) : Phase := ⟨.running, some since, none, none, none, retries⟩

/-- The record of a node that has ended. -/
def ended (since till retries : Nat) (ending : Ending) (result : Json) : Phase :=
  ⟨ending.state, some since, some till, some result, ending.error?, retries⟩

/-- A pending node starts. -/
def start (now : Nat) (phase : Phase) : Phase :=
  if phase.state = .pending then { phase with state := .running, startedAt? := some now } else phase

/-- A running node ends. -/
def finish (now : Nat) (ending : Ending) (result : Json) (phase : Phase) : Phase :=
  if phase.state = .running then
    { phase with
      state := ending.state, endedAt? := some now, result? := some result, error? := ending.error? }
  else phase

/-- A running node tries once more. -/
def retry (phase : Phase) : Phase :=
  if phase.state = .running then { phase with retries := phase.retries + 1 } else phase

/-- The end of a cancelled node, whose error is the text in its value. -/
def cancelEnding (value : Json) : Ending := .cancelled ((value.member? "error").bind Json.str?)

end Phase

/-- The state of one run. -/
structure Context where
  workflowId : String
  executionId : String
  bindings : Table Json
  results : Table Json
  nodes : Table Phase
  cancelled : Bool

/-- How many nodes ended in each way. -/
structure Counts where
  completed : Nat
  failed : Nat
  cancelled : Nat
deriving DecidableEq, Repr

namespace Context

/-- The state before anything ran. -/
def fresh (workflowId executionId : String) (bindings : Table Json) : Context :=
  ⟨workflowId, executionId, bindings, [], [], false⟩

/-- What paths can reach. -/
def scope (context : Context) : Scope := ⟨context.bindings, context.results⟩

/-- How far a node has come; a node that nobody has touched is pending. -/
def phase (context : Context) (id : String) : Phase := (context.nodes.find? id).getD .pending

/-- Writes the record of a node. -/
def setPhase (context : Context) (id : String) (phase : Phase) : Context :=
  { context with nodes := context.nodes.insert id phase }

/-- Sees to it that a node is listed. -/
def touch (context : Context) (id : String) : Context := context.setPhase id (context.phase id)

/-- Binds a variable. -/
def setVariable (context : Context) (name : String) (value : Json) : Context :=
  { context with bindings := context.bindings.insert name value }

/-- Keeps a value under the name of a node. -/
def setResult (context : Context) (id : String) (value : Json) : Context :=
  { context with results := context.results.insert id value }

/-- Starts a node if it is pending. -/
def start (context : Context) (now : Nat) (id : String) : Bool × Context :=
  ((context.phase id).state = .pending, context.setPhase id ((context.phase id).start now))

/-- Ends a node if it is running. The value is kept with the node, not among the results. -/
def finish (context : Context) (now : Nat) (id : String) (ending : Ending) (value : Json) :
    Bool × Context :=
  ((context.phase id).state = .running,
    context.setPhase id ((context.phase id).finish now ending value))

/-- Counts one more attempt of a running node. -/
def recordRetry (context : Context) (id : String) : Context :=
  context.setPhase id (context.phase id).retry

/-- The value of a cancelled node. -/
def cancelledValue (context : Context) (id : String) : Json :=
  (Fault.cancelled context.executionId).value id

/-- Cancels a node if it is running, and keeps its value among the results. -/
def cancelNode (context : Context) (now : Nat) (id : String) : Bool × Context :=
  if (context.phase id).state = .running then
    let value := context.cancelledValue id
    (true,
      (context.setPhase id ((context.phase id).finish now (Phase.cancelEnding value) value)).setResult
        id value)
  else (false, context)

/-- Cancels those of some nodes that are running, and counts them. -/
def cancelAll (context : Context) (now : Nat) : List String → Nat × Context
  | [] => (0, context)
  | id :: rest =>
    let (done, context) := context.cancelNode now id
    let (count, context) := cancelAll context now rest
    (count + (if done then 1 else 0), context)

/-- Cancels every running node. -/
def cancelRunning (context : Context) (now : Nat) : Nat × Context :=
  context.cancelAll now context.nodes.keys

/-- Cancels every running node of a tree. -/
def cancelRunningIn (context : Context) (now : Nat) (node : Node) : Nat × Context :=
  context.cancelAll now node.ids

/-- Makes every node of a tree pending again. -/
def rearm (context : Context) (node : Node) : Context :=
  node.ids.foldl (fun context id => context.setPhase id .pending) context

/-- Marks the run as cancelled. -/
def cancel (context : Context) : Context := { context with cancelled := true }

/-- How many nodes are in a state. -/
def countState (context : Context) (state : NodeState) : Nat :=
  context.nodes.countP (fun entry => entry.2.state = state)

/-- How many nodes have ended in each way. -/
def counts (context : Context) : Counts :=
  ⟨context.countState .completed, context.countState .failed, context.countState .cancelled⟩

end Context

end Stepwise
