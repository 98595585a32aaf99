import Stepwise.Repository
import Stepwise.Request
import Stepwise.Run.Machine
import Stepwise.Step.Tree

/-!
# Coordinators

A coordinator takes requests and runs them, no more than its gate allows at a time. A request
that is accepted becomes a session: it waits at the gate in the order of arrival, is checked, and
is run again after a pause if it fails. The sessions are found by their execution ids; an id that
belongs to a session is refused to any other request.
-/

namespace Stepwise

/-- How a coordinator treats requests. -/
structure Policy where
  maxConcurrent : UInt64
  timeout : Option Duration
  maxRetries : UInt32
  backoff : Duration
  limits : Limits
  catalog : Catalog
  defaults : Defaults
deriving DecidableEq, Repr

/-- The policy unless another is set. -/
def Policy.standard : Policy :=
  ⟨10, none, 3, .ofSecs 1, .standard, .unrestricted, .standard⟩

/-- The places of the gate. It cannot count more than `2 ^ 61 - 1`. -/
def Policy.places (policy : Policy) : Nat := min policy.maxConcurrent.toNat (UInt64.size / 8 - 1)

/-- The pause after a run that is followed by another: it doubles up to sixteen times. -/
def Policy.pause (policy : Policy) (retries : Nat) : Duration :=
  policy.backoff.scale (Nat.pow 2 (min retries 16))

/-- A request that has passed the checks and may be run: its tree, what was found, how often it
may be run again, and how long each run may take. -/
structure Plan where
  root : Node
  report : Report
  maxRetries : Nat
  timeout : Option Duration

/-- Where a session is: at the gate, let through and about to go on, in a run, or in the pause
after one. -/
inductive SessionPhase where
  | queued
  | admitted
  | executing (plan : Plan) (activity : Activity) (limit : Option Run.TimeLimit)
  | pausing (plan : Plan) (ticket due : Nat)

/-- A request that was accepted and has not ended. The attempt is the number of runs before the
last one; once that has failed and another is to come, there is one retry more. The context is
that of the last run, if there was one. -/
structure Session where
  handle : Nat
  id : String
  request : Request
  startedAt : Nat
  cancelled : Bool
  status : Status
  attempt : Nat
  retries : Nat
  context : Option Context
  phase : SessionPhase

namespace Session

/-- The counts of the last run. -/
def counts (session : Session) : Counts := (session.context.map Context.counts).getD ⟨0, 0, 0⟩

/-- Cancels a session: its present run and all that would follow. -/
def cancel (session : Session) (now : Nat) : Session :=
  { session with
    cancelled := true
    context := session.context.map (fun context => (context.cancel.cancelRunning now).2) }

/-- The run of a session is cancelled, but not the session. -/
def isHaltedWithin (session : Session) : Bool :=
  session.context.any Context.cancelled && !session.cancelled

/-- A cancellation cuts the wait of this session short. -/
def isNapping (session : Session) : Bool :=
  match session.phase with
  | .executing _ activity _ => activity.firstNap?.isSome
  | .pausing .. => true
  | .queued | .admitted => false

end Session

/-- Something that can go on at once: a request that has arrived, or a session that was woken. -/
inductive Ready where
  | arrival (handle : Nat) (request : Request)
  | session (handle : Nat)

/-- What a callback comes to when it is called. -/
inductive CallbackOutcome where
  | done
  | failed (reason : String)
  | panicked
deriving DecidableEq, Repr

/-- A callback: the tag that it is known by, and what it makes of a response. -/
structure Callback where
  tag : String
  answer : Response → CallbackOutcome

/-- A tag alone stands for a callback that is content with everything. -/
instance : Coe String Callback := ⟨fun tag => ⟨tag, fun _ => .done⟩⟩

/-- A callback that was called: its tag, what it was told, and what it came to. -/
structure Called where
  tag : String
  response : Response
  outcome : CallbackOutcome
  time : Nat

namespace Called

/-- The execution whose end was told. -/
def executionId (called : Called) : String := called.response.executionId

/-- How that execution ended. -/
def status (called : Called) : Status := called.response.status

end Called

/-- Calls a callback. Whatever it comes to is kept and nothing else. -/
def Callback.call (callback : Callback) (response : Response) (time : Nat) : Called :=
  ⟨callback.tag, response, callback.answer response, time⟩

/-- The end of a request. -/
structure End where
  handle : Nat
  time : Nat
  response : Response

/-- The state of a coordinator. -/
structure Coordinator where
  policy : Policy
  executor : Executor
  world : World
  /-- The places that the gate has left. -/
  free : Nat
  /-- The sessions that wait at the gate, by their handles. -/
  queue : List Nat
  sessions : List Session
  ready : List Ready
  /-- The callbacks of an execution. -/
  callbacks : Table (List Callback)
  called : List Called
  repository : Repository
  ends : List End
  /-- The handle of the next request. -/
  handles : Nat
  /-- The ids of requests that bring none, by their handles. -/
  ids : Nat → String

namespace Coordinator

/-- An id made of a number. -/
def numberedId (handle : Nat) : String :=
  let digits := String.ofList (Text.hex handle)
  "00000000-0000-4000-8000-" ++ String.ofList (List.replicate (12 - digits.length) '0') ++ digits

/-- A coordinator that nothing has been asked of. -/
def make (policy : Policy) (executor : Executor) (ids : Nat → String := numberedId) :
    Coordinator where
  policy := policy
  executor := executor
  world := .empty
  free := policy.places
  queue := []
  sessions := []
  ready := []
  callbacks := []
  called := []
  repository := .empty
  ends := []
  handles := 0
  ids := ids

/-- What runs the trees of requests. -/
def engine (c : Coordinator) : Engine := ⟨c.executor, c.policy.defaults⟩

/-- What checks the trees of requests. -/
def checker (c : Coordinator) : Checker := ⟨c.policy.limits, c.policy.catalog⟩

/-- The session of an execution. -/
def find? (c : Coordinator) (id : String) : Option Session := c.sessions.find? (fun s => s.id = id)

/-- The session of a handle. -/
def session? (c : Coordinator) (handle : Nat) : Option Session :=
  c.sessions.find? (fun s => s.handle = handle)

/-- The end of the request of a handle. -/
def end? (c : Coordinator) (handle : Nat) : Option End :=
  c.ends.find? (fun e => e.handle = handle)

/-- Puts a session in the place of the one with its handle. -/
def replace (c : Coordinator) (session : Session) : Coordinator :=
  { c with sessions := c.sessions.map (fun s => if s.handle = session.handle then session else s) }

/-- A session stands in line. -/
def wake (c : Coordinator) (handle : Nat) : Coordinator :=
  { c with ready := c.ready ++ [.session handle] }

/-- The ids of the sessions in their order. -/
def activeIds (c : Coordinator) : List String :=
  (c.sessions.map Session.id).mergeSort (fun a b => decide (a ≤ b))

/-- Cancels the session of an execution, if there is one, and lets it know. -/
def cancel (c : Coordinator) (id : String) : Bool × Coordinator :=
  match c.find? id with
  | none => (false, c)
  | some session =>
    let c := c.replace (session.cancel c.world.now)
    (true, if session.isNapping then c.wake session.handle else c)

/-- Sees to it that a callback is called when an execution ends. -/
def register (c : Coordinator) (id : String) (callback : Callback) : Except Fault Coordinator :=
  if Text.isBlankText id then .error (.callbackRefused id "execution id is empty")
  else
    .ok { c with
      callbacks := c.callbacks.insert id ((c.callbacks.find? id).getD [] ++ [callback]) }

end Coordinator

end Stepwise
