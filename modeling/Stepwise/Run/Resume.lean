import Stepwise.Run.Start

/-!
# Going on after a wait

When a wait is over, the activity with its ticket goes on, again as far as it can; everything
else stays as it is. A child of a parallel block that ends is judged, and if the block goes on,
the lane is free for the next child in the queue, which starts when its own turn comes.
-/

namespace Stepwise.Run

/-- What one lane has come to: it stays, perhaps with its activity moved on, or its child has
ended. -/
inductive LaneResult where
  | kept (lane : Lane Activity)
  | ended (child : Node) (outcome : Except Fault Json)

/-- What the lanes of a block have come to: all wait, or a child has ended between some lanes. -/
inductive LaneChange where
  | none (lanes : List (Lane Activity))
  | ended (before : List (Lane Activity)) (child : Node) (outcome : Except Fault Json)
      (after : List (Lane Activity))

/-- Puts a lane in front of others. -/
def LaneChange.cons (lane : Lane Activity) : LaneChange → LaneChange
  | .none lanes => .none (lane :: lanes)
  | .ended before child outcome after => .ended (lane :: before) child outcome after

/-- Goes on with the steps that follow a node. -/
def andThen (engine : Engine) (done : List Json) (rest : List Node) :
    RunState × Progress → RunState × Course
  | (s, .ended (.ok value)) => startAll engine (done ++ [value]) s rest
  | (s, .ended (.error fault)) => (s, .ended (.error fault))
  | (s, .waiting current) => (s, .waiting done current rest)

/-- Goes on with a loop in a round of its body. -/
def goOnLoop (engine : Engine) (node : Node) (spec : LoopSpec) (remaining : Nat)
    (finished : List Json) : RunState × Course → RunState × Progress
  | (s, .waiting done current rest) =>
    (s, .waiting (.loop node spec remaining finished done current rest))
  | (s, .ended outcome) =>
    match afterRound spec finished outcome with
    | .inl outcome => (s, .ended outcome)
    | .inr finished =>
      rounds node spec (fun s => startAll engine [] s node.children) remaining false finished s

/-- Goes on with a block whose lanes have changed. -/
def goOnLanes (node : Node) (spec : ParallelSpec) (limit : Nat) (queue : List Node)
    (door : Option Nat) (firstError : Option Fault) :
    RunState × LaneChange → RunState × Progress
  | (s, .none lanes) => (s, .waiting (.parallel node spec lanes queue door firstError))
  | (s, .ended before child outcome after) =>
    afterChild node spec limit queue firstError s before child outcome after

/-- The next child in the queue of a block starts in a lane of its own. -/
def enter (engine : Engine) (node : Node) (spec : ParallelSpec) (limit : Nat)
    (lanes : List (Lane Activity)) (firstError : Option Fault) (s : RunState) :
    List Node → RunState × Progress
  | [] => (s, .waiting (.parallel node spec lanes [] none firstError))
  | child :: rest =>
    match start engine s child with
    | (s, .waiting activity) =>
      carryOn node spec limit (lanes ++ [.running child activity]) firstError s rest
    | (s, .ended outcome) => afterChild node spec limit rest firstError s lanes child outcome []

/-- Goes on after the wait of a task for an answer. -/
def answered (engine : Engine) (node : Node) (spec : TaskSpec) (call : Call) (left : Nat)
    (reply : Reply) (due : Nat) (limit : Option Nat) (s : RunState) : RunState × Progress :=
  let again := attempt engine node spec call left
  if limit.any (· < due) then settle engine node spec call left again s (lateOutcome spec)
  else settle engine node spec call left again (s.applyAll reply.effects) (outcomeOf spec reply)

/-- Goes on after the wait of a task for its next attempt. A cancelled run makes none, unless the
end of the wait was noticed before the cancellation. -/
def rested (engine : Engine) (node : Node) (spec : TaskSpec) (call : Call) (left : Nat)
    (deaf : Bool) (s : RunState) : RunState × Progress :=
  if s.context.cancelled && !deaf then (s, .ended (.error s.cancelledFault))
  else attempt engine node spec call left s

mutual

/-- Goes on after the wait of the ticket that a bell names. -/
def resume (engine : Engine) (bell : Bell) (s : RunState) (activity : Activity) :
    RunState × Progress :=
  match activity with
  | .calling node spec call left reply ticket due limit =>
    if ticket = bell.ticket then
      close node (answered engine node spec call left reply due limit s)
    else (s, .waiting (.calling node spec call left reply ticket due limit))
  | .pausing node spec call left ticket due =>
    if ticket = bell.ticket then close node (rested engine node spec call left bell.deaf s)
    else (s, .waiting (.pausing node spec call left ticket due))
  | .polling node spec deadline ticket due =>
    if ticket = bell.ticket then close node (poll engine node spec deadline s)
    else (s, .waiting (.polling node spec deadline ticket due))
  | .sequence node done current rest =>
    close node (asSequence node (andThen engine done rest (resume engine bell s current)))
  | .branch node current => close node (asBranch node (resume engine bell s current))
  | .loop node spec remaining finished done current rest =>
    close node
      (goOnLoop engine node spec remaining finished
        (andThen engine done rest (resume engine bell s current)))
  | .parallel node spec lanes queue door firstError =>
    let limit := laneLimit spec (lanes.length + queue.length)
    close node
      (if door = some bell.ticket then enter engine node spec limit lanes firstError s queue
      else goOnLanes node spec limit queue door firstError (resumeLanes engine bell s lanes))

/-- Goes on in the first lane that ends; lanes that only wait are passed. -/
def resumeLanes (engine : Engine) (bell : Bell) (s : RunState) :
    List (Lane Activity) → RunState × LaneChange
  | [] => (s, .none [])
  | lane :: rest =>
    match resumeLane engine bell s lane with
    | (s, .ended child outcome) => (s, .ended [] child outcome rest)
    | (s, .kept lane) =>
      let (s, change) := resumeLanes engine bell s rest
      (s, change.cons lane)

/-- Goes on in one lane. -/
def resumeLane (engine : Engine) (bell : Bell) (s : RunState) :
    Lane Activity → RunState × LaneResult
  | .ended child slot => (s, .kept (.ended child slot))
  | .running child activity =>
    match resume engine bell s activity with
    | (s, .ended outcome) => (s, .ended child outcome)
    | (s, .waiting activity) => (s, .kept (.running child activity))

end

end Stepwise.Run
