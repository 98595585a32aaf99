import Stepwise.Condition.Evaluator
import Stepwise.Context
import Stepwise.Event
import Stepwise.Limits
import Stepwise.Template

/-!
# The world of runs

What runs share: a clock of whole milliseconds, the calls of tasks made so far, and the events so
far. A run sees the world together with its own context. What a task answers depends on the call
and on the calls before it, and on what the runs had come to when they made them; an answer may
take its time. A call may do something to the run or to other runs as it begins, and again before
its answer is given.
-/

namespace Stepwise

/-- A call of a task. -/
structure Call where
  task : String
  tools : List String
  parameters : Table Json

/-- A call that has begun: the task that makes it, the time, what its run had come to by then, and
the call itself. -/
structure CallEntry where
  caller : String
  time : Nat
  context : Context
  call : Call

/-- The name of the task that is called. -/
def CallEntry.task (entry : CallEntry) : String := entry.call.task

/-- What a call does to runs. -/
inductive Effect where
  | setVariable (name : String) (value : Json)
  | cancelToken
  | cancelExecution
  | cancelWorkflow (executionId : String)

/-- The answer to a call: the milliseconds that it takes, what is done before it is given, a value
or the text of a failure, and what is done as the call begins. -/
structure Reply where
  delay : Nat
  effects : List Effect
  outcome : Except String Json
  opening : List Effect := []

/-- What answers calls. It sees all that is known of them and of the calls before, so it may look
at the run that makes a call. -/
abbrev Executor := (earlier : List CallEntry) → CallEntry → Reply

/-- The executor that answers at once with the call itself. -/
def Executor.echo : Executor := fun _ entry =>
  { delay := 0
    effects := []
    outcome := .ok (.ofMembers [("task", .str entry.call.task), ("tools", .ofTexts entry.call.tools),
      ("parameters", .obj entry.call.parameters)]) }

/-- The values used where a node gives none of its own. -/
structure Defaults where
  retryDelay : Duration
  pollInterval : Duration
  waitTimeout : Duration
  maxIterations : UInt64
deriving DecidableEq, Repr

/-- The values used unless others are set. -/
def Defaults.standard : Defaults :=
  ⟨standardRetryDelay, standardPollInterval, standardWaitTimeout, standardIterations⟩

/-- What runs a tree. -/
structure Engine where
  executor : Executor
  defaults : Defaults

/-- What runs share. `tickets` numbers the waits: of two waits the one with the smaller ticket
began first. `requests` lists the executions that calls have asked to cancel. `openings` is what
the calls that have begun in this step, and wait for their answers, still have to do as they
begin. -/
structure World where
  now : Nat
  calls : List CallEntry
  log : EventLog
  tickets : Nat
  requests : List String
  openings : List Effect

namespace World

/-- The world before anything happened. -/
def empty : World := ⟨0, [], .empty, 0, [], []⟩

/-- Tells of an event. -/
def emit (world : World) (event : Event) : World :=
  { world with log := world.log.emit world.now event }

/-- The world at a later time. -/
def advancedTo (world : World) (time : Nat) : World := { world with now := max world.now time }

/-- The first millisecond at which a wait of some length is over. A wait that the clock cannot
tell lasts thirty years. -/
def wakeAt (world : World) (length : Duration) : Nat :=
  if signedBound ≤ world.now / millisPerSecond + length.secs then world.now + 30 * 365 * 86400 * millisPerSecond
  else world.now + (length.nanos + (nanosPerMilli - 1)) / nanosPerMilli

/-- The nanosecond at which some time will have passed, if the clock can tell it. -/
def deadline? (world : World) (length : Duration) : Option Nat :=
  if signedBound ≤ world.now / millisPerSecond + length.secs then none
  else some (world.now * nanosPerMilli + length.nanos)

end World

/-- The world and the context of one run in it. -/
structure RunState where
  world : World
  context : Context

namespace RunState

/-- The time. -/
def now (s : RunState) : Nat := s.world.now

/-- Tells of an event. -/
def emit (s : RunState) (event : Event) : RunState := { s with world := s.world.emit event }

/-- The fault of this run's cancellation. -/
def cancelledFault (s : RunState) : Fault := .cancelled s.context.executionId

/-- Takes a ticket for a wait. -/
def takeTicket (s : RunState) : Nat × RunState :=
  (s.world.tickets, { s with world := { s.world with tickets := s.world.tickets + 1 } })

/-- Whether a condition holds now; a faulty one does not. -/
def holds (s : RunState) (condition : String) : Bool :=
  Condition.succeeds s.context.scope condition

/-- Lists a node. -/
def touch (s : RunState) (id : String) : RunState := { s with context := s.context.touch id }

/-- Starts a node and tells so. -/
def startNode (s : RunState) (node : Node) : RunState :=
  { s with context := (s.context.start s.now node.id).2 }.emit
    (.nodeStarted node.id node.kind.nodeType)

/-- The milliseconds since a node started. -/
def runningFor (s : RunState) (id : String) : Nat :=
  s.now - ((s.context.phase id).startedAt?.getD s.now)

/-- Ends a node with its outcome and tells so. A node that has ended in the meantime stays as it
is. -/
def record (s : RunState) (id : String) (outcome : Except Fault Json) : RunState :=
  match outcome with
  | .ok value =>
    match s.context.finish s.now id .completed value with
    | (true, context) =>
      { s with context := context.setResult id value }.emit
        (.nodeCompleted id value (s.runningFor id))
    | (false, context) => { s with context := context }
  | .error fault =>
    if fault.isCancelled then
      match s.context.cancelNode s.now id with
      | (true, context) => { s with context := context }.emit (.nodeCancelled id)
      | (false, context) => { s with context := context }
    else
      let value := fault.value id
      match s.context.finish s.now id (.failed fault.message) value with
      | (true, context) =>
        { s with context := context.setResult id value }.emit
          (.nodeFailed id fault.message (s.runningFor id))
      | (false, context) => { s with context := context }

/-- Counts one more attempt of a task and tells so. -/
def retry (s : RunState) (id : String) (attempt : Nat) (fault : Fault) : RunState :=
  { s with context := s.context.recordRetry id }.emit (.taskRetrying id attempt fault.message)

/-- Makes a call for a task, and says how it will be answered. -/
def place (s : RunState) (engine : Engine) (caller : String) (call : Call) : Reply × RunState :=
  let entry : CallEntry := ⟨caller, s.now, s.context, call⟩
  (engine.executor s.world.calls entry,
    { s with world := { s.world with calls := s.world.calls ++ [entry] } })

/-- Cancels the run: nothing new starts, and what is running counts as cancelled. -/
def cancelExecution (s : RunState) : RunState :=
  { s with context := (s.context.cancel.cancelRunning s.now).2 }

/-- Does one thing that a call does. -/
def apply (s : RunState) : Effect → RunState
  | .setVariable name value => { s with context := s.context.setVariable name value }
  | .cancelToken => { s with context := s.context.cancel }
  | .cancelExecution => s.cancelExecution
  | .cancelWorkflow id =>
    let s := { s with world := { s.world with requests := s.world.requests ++ [id] } }
    if id = s.context.executionId then s.cancelExecution else s

/-- Does what a call does. -/
def applyAll (s : RunState) (effects : List Effect) : RunState := effects.foldl apply s

/-- Puts off what a call does as it begins until the step is over: nothing else happens in a step
once a call waits for its answer. -/
def defer (s : RunState) (effects : List Effect) : RunState :=
  { s with world := { s.world with openings := s.world.openings ++ effects } }

/-- Does what was put off. -/
def flush (s : RunState) : RunState :=
  ({ s with world := { s.world with openings := [] } } : RunState).applyAll s.world.openings

/-- Makes the nodes of some trees pending again. -/
def rearm (s : RunState) (nodes : List Node) : RunState :=
  { s with context := nodes.foldl Context.rearm s.context }

/-- Cancels what is still running in some trees. Of each tree in which anything was running the
top is told to be cancelled. -/
def sweep (s : RunState) : List Node → RunState
  | [] => s
  | node :: rest =>
    let (count, context) := s.context.cancelRunningIn s.now node
    let s : RunState := { s with context := context }
    sweep (if 0 < count then s.emit (.nodeCancelled node.id) else s) rest

end RunState

end Stepwise
