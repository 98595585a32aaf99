import Stepwise.Run.World

/-!
# Activities

A node that has started and not yet ended is an activity. An activity waits for an answer, for
the end of a delay, or for other activities inside it; each wait has a ticket and a time at which
it is over. A parallel block has a lane for each child that has started; the children after them
wait in a queue. As long as a lane is free, the first in the queue has a ticket too, and starts when
its turn comes: this is no wait for any time, but others may go on before it.
-/

namespace Stepwise

/-- A child of a parallel block that has started. The slot is its part of the block's value. -/
inductive Lane (α : Type) where
  | running (child : Node) (activity : α)
  | ended (child : Node) (slot : Json)

/-- A node that has started and not yet ended. -/
inductive Activity where
  /-- A task waits for an answer, which comes at `due` unless `limit` is earlier. `left` attempts
  may follow. -/
  | calling (node : Node) (spec : TaskSpec) (call : Call) (left : Nat) (reply : Reply)
      (ticket due : Nat) (limit : Option Nat)
  /-- A task waits for its next attempt. -/
  | pausing (node : Node) (spec : TaskSpec) (call : Call) (left ticket due : Nat)
  /-- A wait waits for its next look at its condition. -/
  | polling (node : Node) (spec : WaitSpec) (deadline : Option Nat) (ticket due : Nat)
  /-- A sequence: the values of the steps done, the step that runs, and the steps to come. -/
  | sequence (node : Node) (done : List Json) (current : Activity) (rest : List Node)
  /-- A condition whose branch runs. -/
  | branch (node : Node) (current : Activity)
  /-- A loop in a round of its body: the rounds that may follow, the values of the rounds before,
  and how far the body has come. -/
  | loop (node : Node) (spec : LoopSpec) (remaining : Nat) (finished done : List Json)
      (current : Activity) (rest : List Node)
  /-- A parallel block: the children that have started, those to come, the ticket of the next of
  them if there is a lane for it, and the first failure of a child that did not stop the block. -/
  | parallel (node : Node) (spec : ParallelSpec) (lanes : List (Lane Activity))
      (queue : List Node) (door : Option Nat) (firstError : Option Fault)

/-- What a node has come to: it has ended, or it waits. -/
inductive Progress where
  | ended (outcome : Except Fault Json)
  | waiting (activity : Activity)

/-- What steps in turn have come to: they have all ended or one has failed, or one waits after
those done and before the rest. -/
inductive Course where
  | ended (outcome : Except Fault (List Json))
  | waiting (done : List Json) (current : Activity) (rest : List Node)

/-- A wait: when it is over, and its ticket. -/
structure Timer where
  due : Nat
  ticket : Nat
deriving DecidableEq, Repr

/-- What makes a wait go on: its ticket, and whether a task whose delay is over is deaf to a
cancellation. When the end of the delay and the cancellation meet, either may be noticed first. -/
structure Bell where
  ticket : Nat
  deaf : Bool
deriving DecidableEq, Repr

namespace Lane

variable {α : Type}

/-- The child has not ended. -/
def isRunning : Lane α → Bool
  | running .. => true
  | ended .. => false

/-- The child that still runs in a lane. -/
def unfinished? : Lane α → Option Node
  | running child _ => some child
  | ended .. => none

/-- The part of a block's value: null for a child that has not ended. -/
def slot : Lane α → Json
  | running .. => .null
  | ended _ slot => slot

end Lane

namespace Activity

mutual

/-- The waits inside an activity. -/
def timers : Activity → List Timer
  | .calling _ _ _ _ _ ticket due limit => [⟨(limit.map (min due)).getD due, ticket⟩]
  | .pausing _ _ _ _ ticket due => [⟨due, ticket⟩]
  | .polling _ _ _ ticket due => [⟨due, ticket⟩]
  | .sequence _ _ current _ => timers current
  | .branch _ current => timers current
  | .loop _ _ _ _ _ current _ => timers current
  | .parallel _ _ lanes _ _ _ => timersOfLanes lanes

/-- The waits inside the lanes of a block. -/
def timersOfLanes : List (Lane Activity) → List Timer
  | [] => []
  | lane :: rest => timersOfLane lane ++ timersOfLanes rest

/-- The waits inside a lane. -/
def timersOfLane : Lane Activity → List Timer
  | .running _ activity => timers activity
  | .ended _ _ => []

end

mutual

/-- The tickets of the waits that a cancellation cuts short: all but those for answers. -/
def naps : Activity → List Nat
  | .calling .. => []
  | .pausing _ _ _ _ ticket _ => [ticket]
  | .polling _ _ _ ticket _ => [ticket]
  | .sequence _ _ current _ => naps current
  | .branch _ current => naps current
  | .loop _ _ _ _ _ current _ => naps current
  | .parallel _ _ lanes _ _ _ => napsOfLanes lanes

/-- The tickets of these waits inside the lanes of a block. -/
def napsOfLanes : List (Lane Activity) → List Nat
  | [] => []
  | lane :: rest => napsOfLane lane ++ napsOfLanes rest

/-- The tickets of these waits inside a lane. -/
def napsOfLane : Lane Activity → List Nat
  | .running _ activity => naps activity
  | .ended _ _ => []

end

mutual

/-- The tickets of the children that may start, those of inner blocks before those of outer
ones. -/
def doors : Activity → List Nat
  | .calling .. => []
  | .pausing .. => []
  | .polling .. => []
  | .sequence _ _ current _ => doors current
  | .branch _ current => doors current
  | .loop _ _ _ _ _ current _ => doors current
  | .parallel _ _ lanes _ door _ => doorsOfLanes lanes ++ door.toList

/-- The tickets of the children that may start inside the lanes of a block. -/
def doorsOfLanes : List (Lane Activity) → List Nat
  | [] => []
  | lane :: rest => doorsOfLane lane ++ doorsOfLanes rest

/-- The tickets of the children that may start inside a lane. -/
def doorsOfLane : Lane Activity → List Nat
  | .running _ activity => doors activity
  | .ended _ _ => []

end

/-- The wait that is over first. -/
def firstTimer? (activity : Activity) : Option Timer :=
  match activity.timers with
  | [] => none
  | timer :: rest =>
    some (rest.foldl (fun best t =>
      if t.due < best.due ∨ (t.due = best.due ∧ t.ticket < best.ticket) then t else best) timer)

/-- The wait that began first among those that a cancellation cuts short. -/
def firstNap? (activity : Activity) : Option Nat := activity.naps.min?

end Activity

end Stepwise
