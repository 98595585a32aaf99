import Stepwise.Run.Activity

/-!
# Starting nodes

A node that starts goes on as far as it can without waiting. So does everything it starts: the
next step of a sequence and the next round of a loop. The children of a parallel block start one
after the other, each in a step of its own, as long as there are free lanes. A child that ends at
once is judged before the next one starts.
-/

namespace Stepwise.Run

/-- How often a task may be called. -/
def attempts (spec : TaskSpec) : Nat := min (spec.retries.toNat + 1) (UInt32.size - 1)

/-- The fault of a task whose last attempt failed. -/
def exhausted (node : Node) (spec : TaskSpec) (fault : Fault) : Fault :=
  if attempts spec = 1 then fault else .retriesExhausted node.id (attempts spec) fault.message

/-- Records the outcome of a node that has ended. -/
def close (node : Node) : RunState × Progress → RunState × Progress
  | (s, .ended outcome) => (s.record node.id outcome, .ended outcome)
  | (s, .waiting activity) => (s, .waiting activity)

/-- Goes on after an attempt of a task with its outcome: `again` makes the next attempt, and
`left` attempts may follow. The outcome does not count if the run was cancelled in the
meantime. -/
def settle (engine : Engine) (node : Node) (spec : TaskSpec) (call : Call) (left : Nat)
    (again : RunState → RunState × Progress) (s : RunState) (outcome : Except Fault Json) :
    RunState × Progress :=
  if s.context.cancelled then (s, .ended (.error s.cancelledFault))
  else
    match outcome with
    | .ok value => (s, .ended (.ok value))
    | .error fault =>
      if left = 0 then (s, .ended (.error (exhausted node spec fault)))
      else
        let s := s.retry node.id (attempts spec - left) fault
        if engine.defaults.retryDelay = .zero then again s
        else
          let due := s.world.wakeAt engine.defaults.retryDelay
          let (ticket, s) := s.takeTicket
          (s, .waiting (.pausing node spec call left ticket due))

/-- The outcome of an answer. -/
def outcomeOf (spec : TaskSpec) (reply : Reply) : Except Fault Json :=
  reply.outcome.mapError (Fault.taskFailed spec.task)

/-- The outcome of an answer that did not come in time. -/
def lateOutcome (spec : TaskSpec) : Except Fault Json :=
  .error (.taskTimeout spec.task (spec.timeout.getD .zero).shownMillis)

/-- Calls a task, at most as often as there are attempts left. -/
def attempt (engine : Engine) (node : Node) (spec : TaskSpec) (call : Call) :
    (left : Nat) → RunState → RunState × Progress
  | 0, s => (s, .ended (.error (.nodeFailed node.id "task never ran")))
  | left + 1, s =>
    let (reply, s) := s.place engine node.id call
    let again := attempt engine node spec call left
    if reply.delay = 0 then
      settle engine node spec call left again (s.applyAll (reply.opening ++ reply.effects))
        (outcomeOf spec reply)
    else
      let limit := spec.timeout.map s.world.wakeAt
      if limit.any (· ≤ s.now) then
        settle engine node spec call left again (s.applyAll reply.opening) (lateOutcome spec)
      else
        let (ticket, s) := (s.defer reply.opening).takeTicket
        (s, .waiting (.calling node spec call left reply ticket (s.now + reply.delay) limit))

/-- The call that a task makes, with its parameters resolved. -/
def callOf (spec : TaskSpec) (s : RunState) : Call :=
  ⟨spec.task, spec.tools, Template.resolveMembers s.context.scope spec.parameters⟩

/-- The time between two looks at a condition: at least a millisecond. -/
def pollInterval (engine : Engine) (spec : WaitSpec) : Duration :=
  (spec.pollInterval.getD engine.defaults.pollInterval).longer (.ofMillis 1)

/-- Looks at the condition of a wait. -/
def poll (engine : Engine) (node : Node) (spec : WaitSpec) (deadline : Option Nat) (s : RunState) :
    RunState × Progress :=
  if s.context.cancelled then (s, .ended (.error s.cancelledFault))
  else if s.holds spec.condition then (s, .ended (.ok (.bool true)))
  else
    let nanos := s.now * nanosPerMilli
    if deadline.any (· ≤ nanos) then (s, .ended (.ok (.bool false)))
    else
      let interval := pollInterval engine spec
      let nap := match deadline with
        | some deadline => interval.shorter (.ofNanos (deadline - nanos))
        | none => interval
      let due := s.world.wakeAt nap
      let (ticket, s) := s.takeTicket
      (s, .waiting (.polling node spec deadline ticket due))

/-- Starts a wait. -/
def startWait (engine : Engine) (node : Node) (spec : WaitSpec) (s : RunState) :
    RunState × Progress :=
  let timeout := spec.timeout.getD engine.defaults.waitTimeout
  poll engine node spec (s.world.deadline? timeout) s

/-- The progress of a sequence from that of its steps. -/
def asSequence (node : Node) : RunState × Course → RunState × Progress
  | (s, .ended outcome) => (s, .ended (outcome.map .arr))
  | (s, .waiting done current rest) => (s, .waiting (.sequence node done current rest))

/-- The progress of a condition from that of its branch. -/
def asBranch (node : Node) : RunState × Progress → RunState × Progress
  | (s, .ended outcome) => (s, .ended outcome)
  | (s, .waiting current) => (s, .waiting (.branch node current))

/-- What the end of a round means for its loop: the outcome of the loop, or the values of the
rounds so far. -/
def afterRound (spec : LoopSpec) (finished : List Json) :
    Except Fault (List Json) → Except Fault Json ⊕ List Json
  | .ok values => .inr (finished ++ [.arr values])
  | .error fault =>
    if fault.isCancelled then .inl (.error fault)
    else if spec.breakOnError then .inl (.ok (.arr finished))
    else .inr (finished ++ [.null])

/-- Goes on with the rounds of a loop. Before any round but the first the body is rearmed. -/
def rounds (node : Node) (spec : LoopSpec) (body : RunState → RunState × Course) :
    (remaining : Nat) → (first : Bool) → (finished : List Json) → RunState → RunState × Progress
  | 0, _, finished, s => (s, .ended (.ok (.arr finished)))
  | remaining + 1, first, finished, s =>
    if s.context.cancelled then (s, .ended (.error s.cancelledFault))
    else if !s.holds spec.condition then (s, .ended (.ok (.arr finished)))
    else
      match body (if first then s else s.rearm node.children) with
      | (s, .waiting done current rest) =>
        (s, .waiting (.loop node spec remaining finished done current rest))
      | (s, .ended outcome) =>
        match afterRound spec finished outcome with
        | .inl outcome => (s, .ended outcome)
        | .inr finished => rounds node spec body remaining false finished s

/-- The rounds that a loop may have. -/
def maxRounds (engine : Engine) (spec : LoopSpec) : Nat :=
  (spec.maxIterations.getD engine.defaults.maxIterations).toNat

/-- The lanes that a block of `n` children may have at a time. -/
def laneLimit (spec : ParallelSpec) (n : Nat) : Nat :=
  max 1 ((spec.maxConcurrency.map UInt64.toNat).getD n)

/-- What the end of a child means for its block. -/
inductive Verdict where
  | goOn (slot : Json) (firstError : Option Fault)
  | stop (outcome : Except Fault Json)

/-- Judges the end of a child. A cancellation stops the block; so does a failure, if the block
fails fast and waits for all, and a success, if it does not wait for all. -/
def judge (spec : ParallelSpec) (firstError : Option Fault) (child : Node) :
    Except Fault Json → Verdict
  | .ok value => if spec.waitForAll then .goOn value firstError else .stop (.ok value)
  | .error fault =>
    if fault.isCancelled || (spec.failFast && spec.waitForAll) then .stop (.error fault)
    else .goOn (fault.value child.id) (firstError.or (some fault))

/-- Stops a block at a child that stands between some lanes: what has not ended is cancelled. -/
def stop (before after : List (Lane Activity)) (queue : List Node) (outcome : Except Fault Json)
    (s : RunState) : RunState × Progress :=
  let unfinished := before.filterMap Lane.unfinished? ++ after.filterMap Lane.unfinished? ++ queue
  (s.sweep unfinished,
    .ended (outcome.map (fun value =>
      .arr (before.map Lane.slot ++ [value] ++ after.map Lane.slot ++ queue.map (fun _ => .null)))))

/-- The end of a block whose children have all ended. -/
def conclude (spec : ParallelSpec) (lanes : List (Lane Activity)) (firstError : Option Fault) :
    Except Fault Json :=
  match firstError with
  | some fault =>
    if spec.failFast && !spec.waitForAll then .error fault else .ok (.arr (lanes.map Lane.slot))
  | none => .ok (.arr (lanes.map Lane.slot))

/-- Goes on with a block: while children wait and a lane is free, the next of them gets a ticket; a
block whose children have all ended has ended. -/
def carryOn (block : Node) (spec : ParallelSpec) (limit : Nat) (lanes : List (Lane Activity))
    (firstError : Option Fault) (s : RunState) : List Node → RunState × Progress
  | [] =>
    if lanes.any Lane.isRunning then (s, .waiting (.parallel block spec lanes [] none firstError))
    else (s, .ended (conclude spec lanes firstError))
  | child :: rest =>
    if limit ≤ lanes.countP Lane.isRunning then
      (s, .waiting (.parallel block spec lanes (child :: rest) none firstError))
    else
      let (ticket, s) := s.takeTicket
      (s, .waiting (.parallel block spec lanes (child :: rest) (some ticket) firstError))

/-- Goes on with a block after the end of a child that stands between some lanes. -/
def afterChild (block : Node) (spec : ParallelSpec) (limit : Nat) (queue : List Node)
    (firstError : Option Fault) (s : RunState) (before : List (Lane Activity)) (child : Node)
    (outcome : Except Fault Json) (after : List (Lane Activity)) : RunState × Progress :=
  match judge spec firstError child outcome with
  | .goOn slot firstError =>
    carryOn block spec limit (before ++ [.ended child slot] ++ after) firstError s queue
  | .stop outcome => stop before after queue outcome s

mutual

/-- Starts a node. Once the run is cancelled, a node is listed and does not start. -/
def start (engine : Engine) (s : RunState) (node : Node) : RunState × Progress :=
  match node with
  | ⟨id, kind, children, branch, tags⟩ =>
    let node : Node := ⟨id, kind, children, branch, tags⟩
    if s.context.cancelled then (s.touch id, .ended (.error s.cancelledFault))
    else
      let s := s.startNode node
      close node
        (match kind with
        | .task spec => attempt engine node spec (callOf spec s) (attempts spec) s
        | .sequence => asSequence node (startAll engine [] s children)
        | .parallel spec =>
          carryOn node spec (laneLimit spec children.length) [] none s children
        | .condition text =>
          let side := if s.holds text then Branch.onTrue else Branch.onFalse
          asBranch node (startBranch engine side s children)
        | .loop spec =>
          rounds node spec (fun s => startAll engine [] s children) (maxRounds engine spec) true [] s
        | .wait spec => startWait engine node spec s)

/-- Starts nodes one after another, each when the one before has ended well. -/
def startAll (engine : Engine) (done : List Json) (s : RunState) : List Node → RunState × Course
  | [] => (s, .ended (.ok done))
  | node :: rest =>
    match start engine s node with
    | (s, .ended (.ok value)) => startAll engine (done ++ [value]) s rest
    | (s, .ended (.error fault)) => (s, .ended (.error fault))
    | (s, .waiting current) => (s, .waiting done current rest)

/-- Starts the first node on a side; no node there is worth null. -/
def startBranch (engine : Engine) (side : Branch) (s : RunState) : List Node → RunState × Progress
  | [] => (s, .ended (.ok .null))
  | node :: rest =>
    if node.branch = some side then start engine s node else startBranch engine side s rest

end

end Stepwise.Run
