import Stepwise.Proofs.Run.Act

/-!
# Events of runs

What a run tells comes after all that was told before, and it is about nodes only: that an
execution starts, is run again or ends is told by whoever runs it (`Acts.tellsNodes`).
-/

namespace Stepwise

/-- The events of a log without their numbers and times. -/
def EventLog.events (log : EventLog) : List Event := log.entries.map Entry.event

@[simp] theorem EventLog.events_emit (log : EventLog) (time : Nat) (event : Event) :
    (log.emit time event).events = log.events ++ [event] := by
  rw [emit, events, List.map_append]
  rfl

namespace World

/-- What was told from one world to a later one. -/
def Tells (world later : World) (events : List Event) : Prop :=
  later.log.events = world.log.events ++ events

/-- From one world to a later one only nodes were told of. -/
def TellsNodes (world later : World) : Prop :=
  ∃ events, world.Tells later events ∧ ∀ event ∈ events, event.isWorkflowEvent = false

variable {world middle later : World} {events more : List Event} {event : Event}

theorem Tells.of_eq (h : later.log = world.log) : world.Tells later [] := by
  rw [Tells, h, List.append_nil]

/-- What is told twice is told one after the other. -/
theorem Tells.trans (first : world.Tells middle events) (second : middle.Tells later more) :
    world.Tells later (events ++ more) := by
  rw [Tells, second, first, List.append_assoc]

/-- What was told is known from the two worlds. -/
theorem Tells.unique (first : world.Tells later events) (second : world.Tells later more) :
    events = more := List.append_cancel_left (first.symm.trans second)

theorem tells_emit (world : World) (event : Event) : world.Tells (world.emit event) [event] :=
  EventLog.events_emit world.log world.now event

namespace TellsNodes

theorem of_eq (h : later.log = world.log) : world.TellsNodes later := ⟨[], .of_eq h, nofun⟩

theorem refl (world : World) : world.TellsNodes world := .of_eq rfl

theorem trans (first : world.TellsNodes middle) (second : middle.TellsNodes later) :
    world.TellsNodes later := by
  obtain ⟨events, tells, nodes⟩ := first
  obtain ⟨more, goes, others⟩ := second
  exact ⟨events ++ more, tells.trans goes, fun event member =>
    (List.mem_append.1 member).elim (nodes event) (others event)⟩

theorem emit (node : event.isWorkflowEvent = false) : world.TellsNodes (world.emit event) := by
  refine ⟨[event], world.tells_emit event, fun other member => ?_⟩
  rw [List.mem_singleton.1 member]
  exact node

end TellsNodes

end World

open World (TellsNodes)

namespace RunState

variable (s : RunState)

@[simp] theorem log_applyAll (effects : List Effect) :
    (s.applyAll effects).world.log = s.world.log := by
  induction effects generalizing s with
  | nil => rfl
  | cons effect rest ih =>
    refine (ih _).trans ?_
    cases effect with
    | cancelWorkflow id =>
      simp only [apply]
      split <;> rfl
    | setVariable | cancelToken | cancelExecution => rfl

/-- An outcome is told by events of its node alone. -/
theorem tellsNodes_record (id : String) (outcome : Except Fault Json) :
    s.world.TellsNodes (s.record id outcome).world := by
  cases outcome with
  | ok value =>
    simp only [record]
    split
    · exact .emit rfl
    · exact .refl _
  | error fault =>
    simp only [record]
    split
    · split
      · exact .emit rfl
      · exact .refl _
    · split
      · exact .emit rfl
      · exact .refl _

/-- A sweep is told by events of nodes alone. -/
theorem tellsNodes_sweep (nodes : List Node) : s.world.TellsNodes (s.sweep nodes).world := by
  induction nodes generalizing s with
  | nil => exact .refl _
  | cons node rest ih =>
    simp only [sweep]
    refine .trans ?_ (ih _)
    split
    · exact .emit rfl
    · exact .refl _

end RunState

variable {engine : Engine} {manner : Manner} {ids : List String} {s s' : RunState}

/-- Every act is told by events of nodes alone. -/
theorem Act.tellsNodes (act : Act engine manner ids s s') : s.world.TellsNodes s'.world := by
  cases act with
  | begin => exact .emit rfl
  | retry => exact .emit rfl
  | call => exact .of_eq (RunState.log_applyAll _ _)
  | affect effects => exact .of_eq (s.log_applyAll effects)
  | record => exact s.tellsNodes_record _ _
  | sweep => exact s.tellsNodes_sweep _
  | list | callLater | stray | note | wait | rearm => exact .of_eq rfl

/-- A run tells of nothing but nodes. -/
theorem Acts.tellsNodes (acts : Acts engine manner ids s s') : s.world.TellsNodes s'.world := by
  induction acts with
  | refl => exact .refl _
  | tail _ act ih => exact ih.trans act.tellsNodes

end Stepwise
