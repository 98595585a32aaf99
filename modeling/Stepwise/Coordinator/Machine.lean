import Stepwise.Coordinator.Attempt

/-!
# Coordinators at work

Whatever can go on at once stands in one line, and goes on one after the other. A session that
ends gives its place at the gate to the one that has waited longest; then it leaves the registry,
its end is recorded and told, and its callbacks are called. A session that goes on does so as long
as it can without waiting, before the next one in line has its turn. When nobody can go on, the
clock goes to the next wait that is over.
-/

namespace Stepwise

namespace Coordinator

/-- The event of an end. -/
def endEvent (response : Response) : Event :=
  match response.status with
  | .completed => .workflowCompleted response.executionId response.time.shownMillis
  | .cancelled => .workflowCancelled response.executionId
  | _ => .workflowFailed response.executionId (response.error.getD "")
      (response.errorCode.getD "")

/-- The time of a record, by the clock of the coordinator. -/
def recordTime (c : Coordinator) : Timestamp :=
  ⟨c.world.now / millisPerSecond, c.world.now % millisPerSecond * nanosPerMilli⟩

/-- Keeps the end of a request. -/
def addEnd (c : Coordinator) (handle : Nat) (response : Response) : Coordinator :=
  { c with ends := c.ends ++ [⟨handle, c.world.now, response⟩] }

/-- Records an end, tells it, and calls the callbacks of the execution one after the other,
whatever they come to; they are then forgotten. -/
def finish (c : Coordinator) (handle : Nat) (workflowId : String) (response : Response) :
    Coordinator :=
  let id := response.executionId
  let callbacks := (c.callbacks.find? id).getD []
  { c with
    repository := c.repository.save (.ofResponse workflowId response c.recordTime)
    world := c.world.emit (endEvent response)
    callbacks := c.callbacks.erase id
    called := c.called ++ callbacks.map (fun callback => callback.call response c.world.now)
    : Coordinator }.addEnd handle response

/-- Lets a session through the gate when a place is given back. -/
def release (c : Coordinator) : Coordinator :=
  match c.queue with
  | [] => { c with free := c.free + 1 }
  | handle :: rest =>
    { c with
      queue := rest
      sessions := c.sessions.map (fun s =>
        if s.handle = handle then { s with phase := .admitted } else s)
      : Coordinator }.wake handle

/-- Cancels what answers have asked to cancel. -/
def grantRequests (c : Coordinator) : Coordinator :=
  let ids := c.world.requests
  ids.foldl (fun c id => (c.cancel id).2) { c with world := { c.world with requests := [] } }

/-- Takes over what a session through the gate has come to. -/
def settle (c : Coordinator) (session : Session) : World × Move → Coordinator
  | (world, .stays session) => ({ c with world := world }.replace session).grantRequests
  | (world, .ends response) =>
    let c := { c with world := world }.grantRequests.release
    { c with sessions := c.sessions.filter (fun s => s.handle ≠ session.handle)
      : Coordinator }.finish session.handle session.request.workflowId response

/-- A session through the gate goes on. -/
def proceed (c : Coordinator) (session : Session) : Coordinator :=
  c.settle session (session.proceed c.engine c.policy c.world)

/-- Takes a request that has arrived. Without any place at the gate at all it fails; with the id
of another session it is refused, and leaves no trace. -/
def accept (c : Coordinator) (handle : Nat) (request : Request) : Coordinator :=
  let id := match request.executionId with
    | some id => if id.isEmpty then c.ids handle else id
    | none => c.ids handle
  if c.policy.maxConcurrent = 0 then
    c.finish handle request.workflowId
      (.failure id .failed (.concurrency "max_concurrent_workflows is 0") .zero)
  else if (c.find? id).isSome then
    c.addEnd handle
      (.failure id .failed (.concurrency ("execution '" ++ id ++ "' is already active")) .zero)
  else
    let session : Session :=
      ⟨handle, id, request, c.world.now, false, .pending, 0, 0, none, .queued⟩
    if c.free = 0 then
      { c with sessions := c.sessions ++ [session], queue := c.queue ++ [handle] }
    else
      let session := { session with phase := .admitted }
      { c with sessions := c.sessions ++ [session], free := c.free - 1
        : Coordinator }.proceed session

/-- A session goes on after a stimulus. -/
def stimulate (c : Coordinator) (session : Session) (stimulus : Run.Stimulus) : Coordinator :=
  match session.phase with
  | .queued => c
  | .admitted => c.proceed session
  | .executing plan activity limit =>
    c.settle session
      (session.goOn c.engine c.policy plan activity limit c.world stimulus)
  | .pausing plan _ _ =>
    match session.cancelled, stimulus with
    | false, .heed => c
    | false, .act _ => c
    | _, _ => c.settle session (session.rested c.engine c.policy plan stimulus.isDeaf c.world)

/-- Lets one go on that stood in line. -/
def turn (c : Coordinator) : Ready → Coordinator
  | .arrival handle request => c.accept handle request
  | .session handle =>
    match c.session? handle with
    | some session => c.stimulate session .heed
    | none => c

/-- What comes next by the clock: when, for which session, and what. -/
structure Alarm where
  due : Nat
  handle : Nat
  stimulus : Run.Stimulus

/-- What comes next for a session. A cancelled session stands in line to notice it; a cancellation
from within its run is noticed at once. -/
def alarm? (now : Nat) (session : Session) : Option Alarm :=
  match session.phase with
  | .executing _ activity limit =>
    (Run.next? now session.isHaltedWithin (.active activity limit)).map (fun (due, stimulus) =>
      ⟨due, session.handle, stimulus⟩)
  | .pausing _ ticket due => some ⟨due, session.handle, .wake ⟨ticket, false⟩⟩
  | .queued | .admitted => none

/-- What comes next for any session. -/
def nextAlarm? (c : Coordinator) : Option Alarm :=
  match c.sessions.filterMap (alarm? c.world.now) with
  | [] => none
  | first :: rest => some (rest.foldl (fun best a => if a.due < best.due then a else best) first)

/-- Moves the clock to an alarm and lets its session go on. -/
def ring (c : Coordinator) (alarm : Alarm) : Coordinator :=
  let c := { c with world := c.world.advancedTo alarm.due }
  match c.session? alarm.handle with
  | some session => c.stimulate session alarm.stimulus
  | none => c

/-- Takes the first one in line. -/
def takeTurn? (c : Coordinator) : Option Coordinator :=
  match c.ready with
  | [] => none
  | first :: rest => some ({ c with ready := rest }.turn first)

/-- What comes next if no time is to pass until then. -/
def pressing? (c : Coordinator) : Option Alarm :=
  c.nextAlarm?.filter (fun alarm => alarm.due ≤ c.world.now)

/-- Lets one go on that can without waiting: a session that is in the middle of something, or else
the first one in line. -/
def goOn? (c : Coordinator) : Option Coordinator :=
  match c.pressing? with
  | some alarm => some (c.ring alarm)
  | none => c.takeTurn?

/-- Lets those in line have their turns, so many of them, until nobody can go on without
waiting. -/
def drain : (steps turns : Nat) → Coordinator → Coordinator
  | 0, _, c => c
  | steps + 1, turns, c =>
    match c.pressing? with
    | some alarm => drain steps turns (c.ring alarm)
    | none =>
      match turns, c.takeTurn? with
      | turns + 1, some c => drain steps turns c
      | _, _ => c

/-- Goes on until a request has ended. -/
def await (handle : Nat) : (steps : Nat) → Coordinator → Coordinator
  | 0, c => c
  | steps + 1, c =>
    if (c.end? handle).isSome then c
    else
      match c.goOn? with
      | some c => await handle steps c
      | none =>
        match c.nextAlarm? with
        | some alarm => await handle steps (c.ring alarm)
        | none => c

/-- Goes on until some time. -/
def sleepUntil (time : Nat) : (steps : Nat) → Coordinator → Coordinator
  | 0, c => c
  | steps + 1, c =>
    match c.goOn? with
    | some c => sleepUntil time steps c
    | none =>
      match c.nextAlarm? with
      | some alarm =>
        if alarm.due ≤ time then sleepUntil time steps (c.ring alarm)
        else { c with world := c.world.advancedTo time }
      | none => { c with world := c.world.advancedTo time }

/-- Lets some milliseconds pass; none at all let nobody go on. -/
def sleep (steps : Nat) (c : Coordinator) (millis : Nat) : Coordinator :=
  if millis = 0 then c else sleepUntil (c.world.now + millis) steps c

/-- Takes a request and gives its handle; the request has not yet begun. -/
def receive (c : Coordinator) :
    Nat × Coordinator := (c.handles, { c with handles := c.handles + 1 })

/-- Takes a request that goes on in line with the others. -/
def spawn (steps : Nat) (c : Coordinator) (request : Request) : Nat × Coordinator :=
  let (handle, c) := c.receive
  (handle, { c with ready := c.ready ++ [.arrival handle request] : Coordinator }.drain steps steps)

/-- Takes a request, which begins at once, and goes on until it has ended. -/
def call (steps : Nat) (c : Coordinator) (request : Request) : Option Response × Coordinator :=
  let (handle, c) := c.receive
  let c := (c.accept handle request).await handle steps
  ((c.end? handle).map End.response, c)

/-- Goes on until a request has ended that goes on in line with the others. Those that stand in
line when it ends have their turn as well. -/
def join (steps : Nat) (c : Coordinator) (handle : Nat) : Option End × Coordinator :=
  match c.end? handle with
  | some done => (some done, c)
  | none =>
    let c := c.await handle steps
    let c := drain steps c.ready.length c
    (c.end? handle, c)

end Coordinator

end Stepwise
