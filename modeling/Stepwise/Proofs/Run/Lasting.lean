import Stepwise.Run.Machine
import Stepwise.Proofs.Run.Ticket

/-!
# Cancellations last

Whatever a cancelled run still does, it stays cancelled, in whatever state it is and whichever
ticket is called (`dead_step`). So a run that is not cancelled never was, which lets what is
shown of uncancelled runs be shown from the end backwards.
-/

namespace Stepwise.Run

variable {engine : Engine} {node : Node} {s : RunState} {bell : Bell}

/-- The run is cancelled in the state of a result. -/
abbrev Dead {α : Type} (p : RunState × α) : Prop := p.1.context.cancelled = true

/-- What comes of a cancelled state is cancelled, so what is not comes of a state that is not. -/
theorem alive_of {α : Type} {p : RunState × α} (lasts : s.context.cancelled = true → Dead p)
    (live : p.1.context.cancelled = false) : s.context.cancelled = false := by
  by_contra other
  have dead : p.1.context.cancelled = true := lasts (eq_true_of_ne_false other)
  rw [live] at dead
  cases dead

theorem cancelled_close (node : Node) (p : RunState × Progress) :
    (close node p).1.context.cancelled = p.1.context.cancelled := by
  obtain ⟨s, progress⟩ := p
  cases progress with
  | waiting activity => rfl
  | ended outcome => exact s.cancelled_record _ _

/-- To record an outcome takes no cancellation back. -/
theorem dead_close {p : RunState × Progress} (h : Dead p) : Dead (close node p) :=
  (cancelled_close node p).trans h

theorem dead_poll (h : s.context.cancelled = true) (spec : WaitSpec) (deadline : Option Nat) :
    Dead (poll engine node spec deadline s) := by
  rw [poll, if_pos h]
  exact h

theorem dead_applyAll (h : s.context.cancelled = true) (effects : List Effect) :
    (s.applyAll effects).context.cancelled = true := by
  rw [s.cancelled_applyAll, h, Bool.true_or]

theorem dead_settle {spec : TaskSpec} {call : Call} {left : Nat}
    {again : RunState → RunState × Progress} (h : s.context.cancelled = true)
    (outcome : Except Fault Json) : Dead (settle engine node spec call left again s outcome) := by
  unfold settle
  rw [if_pos h]
  exact h

theorem dead_attempt {spec : TaskSpec} {call : Call} (left : Nat) (h : s.context.cancelled = true) :
    Dead (attempt engine node spec call left s) := by
  cases left with
  | zero => exact h
  | succ left =>
    have placed : (s.place engine node.id call).2.context.cancelled = true := h
    simp only [attempt]
    split
    · exact dead_settle (dead_applyAll placed _) _
    · split
      · exact dead_settle (dead_applyAll placed _) _
      · exact placed

/-- A cancelled run stays so when a node starts in it. -/
theorem dead_start (node : Node) (h : s.context.cancelled = true) : Dead (start engine s node) := by
  rw [start_eq, if_pos h]
  exact h

theorem dead_asSequence {p : RunState × Course} (h : Dead p) : Dead (asSequence node p) := by
  obtain ⟨s, course⟩ := p
  cases course <;> exact h

theorem dead_startAll {nodes : List Node} {done : List Json} (h : s.context.cancelled = true) :
    Dead (startAll engine done s nodes) := by
  induction nodes generalizing done s with
  | nil =>
    rw [startAll]
    exact h
  | cons node rest ih =>
    have first : Dead (start engine s node) := dead_start node h
    rw [startAll]
    generalize start engine s node = p at first
    obtain ⟨s', progress⟩ := p
    cases progress with
    | waiting current => exact first
    | ended outcome =>
      cases outcome with
      | error fault => exact first
      | ok value => exact ih first

theorem dead_rounds {spec : LoopSpec} {body : RunState → RunState × Course} (remaining : Nat)
    (first : Bool) (finished : List Json) (h : s.context.cancelled = true) :
    Dead (rounds node spec body remaining first finished s) := by
  cases remaining with
  | zero => exact h
  | succ remaining =>
    rw [rounds, if_pos h]
    exact h

theorem dead_stop (before after : List (Lane Activity)) (queue : List Node)
    (outcome : Except Fault Json) (h : s.context.cancelled = true) :
    Dead (stop before after queue outcome s) := (s.cancelled_sweep _).trans h

theorem dead_carryOn {block : Node} {spec : ParallelSpec} {limit : Nat}
    {lanes : List (Lane Activity)} {firstError : Option Fault} (h : s.context.cancelled = true)
    (queue : List Node) : Dead (carryOn block spec limit lanes firstError s queue) := by
  cases queue with
  | nil =>
    rw [carryOn]
    split <;> exact h
  | cons child rest =>
    rw [carryOn]
    split <;> exact h

theorem dead_afterChild {block : Node} {spec : ParallelSpec} {limit : Nat} {queue : List Node}
    {firstError : Option Fault} {before after : List (Lane Activity)} {child : Node}
    {outcome : Except Fault Json} (h : s.context.cancelled = true) :
    Dead (afterChild block spec limit queue firstError s before child outcome after) := by
  unfold afterChild
  split
  · exact dead_carryOn h queue
  · exact dead_stop _ _ _ _ h

/-! ## Going on -/

theorem dead_andThen {done : List Json} {rest : List Node} {p : RunState × Progress} (h : Dead p) :
    Dead (andThen engine done rest p) := by
  obtain ⟨s, progress⟩ := p
  cases progress with
  | waiting current => exact h
  | ended outcome =>
    cases outcome with
    | error fault => exact h
    | ok value => exact dead_startAll h

theorem dead_goOnLoop {spec : LoopSpec} {remaining : Nat} {finished : List Json}
    {p : RunState × Course} (h : Dead p) : Dead (goOnLoop engine node spec remaining finished p) := by
  obtain ⟨s, course⟩ := p
  cases course with
  | waiting done current rest => exact h
  | ended outcome =>
    simp only [goOnLoop]
    split
    · exact h
    · exact dead_rounds _ _ _ h

theorem dead_goOnLanes {spec : ParallelSpec} {limit : Nat} {queue : List Node}
    {door : Option Nat} {firstError : Option Fault} {p : RunState × LaneChange} (h : Dead p) :
    Dead (goOnLanes node spec limit queue door firstError p) := by
  obtain ⟨s, change⟩ := p
  cases change with
  | none lanes => exact h
  | ended before child outcome after => exact dead_afterChild h

theorem dead_enter {spec : ParallelSpec} {limit : Nat} {lanes : List (Lane Activity)}
    {firstError : Option Fault} (h : s.context.cancelled = true) (queue : List Node) :
    Dead (enter engine node spec limit lanes firstError s queue) := by
  cases queue with
  | nil => exact h
  | cons child rest =>
    have first : Dead (start engine s child) := dead_start child h
    rw [enter]
    generalize start engine s child = p at first
    obtain ⟨s', progress⟩ := p
    cases progress with
    | waiting activity => exact dead_carryOn first rest
    | ended outcome => exact dead_afterChild first

theorem dead_resumeLanes {lanes : List (Lane Activity)}
    (each : ∀ child activity, .running child activity ∈ lanes → ∀ s : RunState,
      s.context.cancelled = true → Dead (resume engine bell s activity))
    (h : s.context.cancelled = true) : Dead (resumeLanes engine bell s lanes) := by
  induction lanes generalizing s with
  | nil => exact h
  | cons lane rest ih =>
    have ih {s : RunState} (h : s.context.cancelled = true) := ih (s := s)
      (fun child activity member => each child activity (List.mem_cons_of_mem _ member)) h
    rw [resumeLanes]
    cases lane with
    | ended child slot => exact ih h
    | running child activity =>
      have first := each child activity List.mem_cons_self s h
      rw [resumeLane]
      generalize resume engine bell s activity = p at first
      obtain ⟨s', progress⟩ := p
      cases progress with
      | ended outcome => exact first
      | waiting activity => exact ih first

theorem dead_answered {spec : TaskSpec} {call : Call} {left : Nat} {reply : Reply} {due : Nat}
    {limit : Option Nat} (h : s.context.cancelled = true) :
    Dead (answered engine node spec call left reply due limit s) := by
  unfold answered
  dsimp only
  split
  · exact dead_settle h _
  · exact dead_settle (dead_applyAll h _) _

theorem dead_rested {spec : TaskSpec} {call : Call} {left : Nat} {deaf : Bool}
    (h : s.context.cancelled = true) : Dead (rested engine node spec call left deaf s) := by
  unfold rested
  split
  · exact h
  · exact dead_attempt left h

/-- A cancelled run stays so when anything goes on in it. -/
theorem dead_resume (activity : Activity) (h : s.context.cancelled = true) :
    Dead (resume engine bell s activity) := by
  induction activity using Activity.induction generalizing s with
  | calling node spec call left reply ticket due limit =>
    rw [resume]
    split
    · exact dead_close (dead_answered h)
    · exact h
  | pausing node spec call left ticket due =>
    rw [resume]
    split
    · exact dead_close (dead_rested h)
    · exact h
  | polling node spec deadline ticket due =>
    rw [resume]
    split
    · exact dead_close (dead_poll h spec deadline)
    · exact h
  | sequence node done current rest ih =>
    rw [resume]
    exact dead_close (dead_asSequence (dead_andThen (ih h)))
  | branch node current ih =>
    have inner := ih h
    rw [resume]
    generalize resume engine bell s current = p at inner
    obtain ⟨s', progress⟩ := p
    refine dead_close ?_
    cases progress <;> exact inner
  | loop node spec remaining finished done current rest ih =>
    rw [resume]
    exact dead_close (dead_goOnLoop (dead_andThen (ih h)))
  | parallel node spec lanes queue door firstError ih =>
    rw [resume]
    refine dead_close ?_
    split
    · exact dead_enter h queue
    · exact dead_goOnLanes (dead_resumeLanes (fun child activity member s h =>
        ih child activity member h) h)

/-! ## Steps -/

/-- A cancelled run stays so at the end of a step. -/
theorem dead_ofProgress {limit : Option TimeLimit} {p : RunState × Progress} (h : Dead p) :
    Dead (ofProgress limit p) := by
  obtain ⟨s, progress⟩ := p
  cases progress with
  | ended outcome => exact h
  | waiting activity => exact s.cancelled_flush.trans (Bool.or_eq_true_iff.2 (.inl h))

/-- A run whose time limit has passed is cancelled. -/
theorem dead_expire (limit : TimeLimit) (s : RunState) : Dead (expire limit s) :=
  s.cancelled_cancelExecution

/-- No step takes a cancellation back. -/
theorem dead_step (stage : Stage) (stimulus : Stimulus) (h : s.context.cancelled = true) :
    Dead (step engine s stage stimulus) := by
  cases stage with
  | ended outcome => exact h
  | active activity limit =>
    cases stimulus with
    | wake bell => exact dead_ofProgress (dead_resume activity h)
    | heed =>
      simp only [step, heed]
      split
      · exact dead_ofProgress (dead_resume activity h)
      · exact h
    | expire =>
      cases limit with
      | none => exact h
      | some limit => exact dead_expire limit s
    | act effects => exact dead_applyAll h effects

end Stepwise.Run
