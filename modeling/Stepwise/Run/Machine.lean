import Stepwise.Run.Result
import Stepwise.Run.Resume

/-!
# Runs

The run of a tree as a machine. It is launched, and then goes on by stimuli: a wait is over or the
turn of a child has come, the run notices that it is cancelled, the time limit has passed, or
somebody acts on the run from outside. A run that has ended stays as it is. Which stimulus comes
next is left open here, so a statement about all lists of stimuli is one about all schedules.
-/

namespace Stepwise

namespace Run

/-- A time limit, and the millisecond at which it has passed. -/
structure TimeLimit where
  length : Duration
  due : Nat
deriving DecidableEq, Repr

/-- How far a run has come. -/
inductive Stage where
  | active (activity : Activity) (limit : Option TimeLimit)
  | ended (outcome : Except Fault RunResult)

/-- What makes a run go on: a wait is over or a turn has come, the run notices a cancellation, its
time is up, or somebody does something to it. -/
inductive Stimulus where
  | wake (bell : Bell)
  | heed
  | expire
  | act (effects : List Effect)

/-- The end of a delay is noticed before a cancellation that it meets. -/
def Stimulus.isDeaf : Stimulus → Bool
  | .wake bell => bell.deaf
  | .heed | .expire | .act _ => false

/-- The end of a run from the outcome of its root. -/
def report (s : RunState) : Except Fault Json → Except Fault RunResult
  | .ok output => .ok (.ofContext s.context .completed output none)
  | .error fault =>
    if fault.isCancelled then .ok (.ofContext s.context .cancelled .null (some fault.message))
    else .error fault

/-- The stage of a run from the progress of its root. The step is over, so what calls do as they
begin is done now. -/
def ofProgress (limit : Option TimeLimit) : RunState × Progress → RunState × Stage
  | (s, .ended outcome) => (s, .ended (report s outcome))
  | (s, .waiting activity) => (s.flush, .active activity limit)

/-- Ends a run whose time limit has passed: it counts as cancelled from within. -/
def expire (limit : TimeLimit) (s : RunState) : RunState × Stage :=
  (s.cancelExecution, .ended (.error (.workflowTimeout limit.length.shownMillis)))

/-- Starts the run of a tree. -/
def launch (engine : Engine) (root : Node) (limit : Option Duration) (s : RunState) :
    RunState × Stage :=
  ofProgress (limit.map fun length => ⟨length, s.world.wakeAt length⟩) (start engine s root)

/-- Lets a cancelled run notice that it is: the wait that began first is cut short. A run that only
waits for answers goes on when the next one comes. -/
def heed (engine : Engine) (activity : Activity) (limit : Option TimeLimit) (s : RunState) :
    RunState × Stage :=
  match s.context.cancelled, activity.firstNap? with
  | true, some ticket => ofProgress limit (resume engine ⟨ticket, false⟩ s activity)
  | _, _ => (s, .active activity limit)

/-- One step of a run. -/
def step (engine : Engine) (s : RunState) (stage : Stage) (stimulus : Stimulus) :
    RunState × Stage :=
  match stage, stimulus with
  | .ended outcome, _ => (s, .ended outcome)
  | .active activity limit, .wake bell => ofProgress limit (resume engine bell s activity)
  | .active activity limit, .heed => heed engine activity limit s
  | .active _ (some limit), .expire => expire limit s
  | .active activity none, .expire => (s, .active activity none)
  | .active activity limit, .act effects => (s.applyAll effects, .active activity limit)

/-- What comes without any time passing: first the waits that are over, then the turns of children,
then the notice of a cancellation. -/
def pressing? (now : Nat) (cancelled : Bool) (activity : Activity) : Option Stimulus :=
  match activity.firstTimer?.filter (fun timer => timer.due ≤ now) with
  | some timer => some (.wake ⟨timer.ticket, false⟩)
  | none =>
    match activity.doors.head? with
    | some ticket => some (.wake ⟨ticket, false⟩)
    | none => if cancelled && activity.firstNap?.isSome then some .heed else none

/-- What comes next by the clock, and when. A wait that is over with the time limit comes before
it. -/
def next? (now : Nat) (cancelled : Bool) : Stage → Option (Nat × Stimulus)
  | .ended _ => none
  | .active activity limit =>
    match pressing? now cancelled activity with
    | some stimulus => some (now, stimulus)
    | none =>
      match activity.firstTimer?, limit with
      | some timer, some limit =>
        if timer.due ≤ limit.due then some (timer.due, .wake ⟨timer.ticket, false⟩)
        else some (limit.due, .expire)
      | some timer, none => some (timer.due, .wake ⟨timer.ticket, false⟩)
      | none, some limit => some (limit.due, .expire)
      | none, none => none

/-- Somebody acts on a run at some time. -/
structure Action where
  time : Nat
  effects : List Effect

/-- Plays a run by the clock: at each step the clock goes to the next wait that is over, or to
the next action if that is earlier. -/
def play (engine : Engine) : (steps : Nat) → List Action → RunState × Stage → RunState × Stage
  | 0, _, (s, stage) => (s, stage)
  | steps + 1, actions, (s, stage) =>
    let later (time : Nat) : RunState := { s with world := s.world.advancedTo time }
    match next? s.now s.context.cancelled stage, actions with
    | none, _ => (s, stage)
    | some (due, stimulus), [] => play engine steps [] (step engine (later due) stage stimulus)
    | some (due, stimulus), action :: rest =>
      if action.time < due then
        play engine steps rest (step engine (later action.time) stage (.act action.effects))
      else play engine steps (action :: rest) (step engine (later due) stage stimulus)

end Run

end Stepwise
