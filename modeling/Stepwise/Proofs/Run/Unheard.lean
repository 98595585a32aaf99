import Stepwise.Proofs.Run.Resume

/-!
# Cancellations that are not heard

A task whose delay is over makes its next call although the run is cancelled, if the end of the
delay is noticed before the cancellation. `unheard_resume` says what comes of it: if the call is
over at once, the run goes on as a cancelled one does, and otherwise it waits for the answer to that
call where it waited for the end of the delay. So what holds of cancelled runs that hear of their
cancellation holds of all, but for this one call.
-/

namespace Stepwise

/-- Inside an activity one part gives way to another. -/
inductive Activity.Swaps (part next : Activity) : Activity → Activity → Prop
  | self : Swaps part next part next
  | sequence {node : Node} {done : List Json} {current after : Activity} {rest : List Node}
      (inner : Swaps part next current after) :
      Swaps part next (.sequence node done current rest) (.sequence node done after rest)
  | branch {node : Node} {current after : Activity} (inner : Swaps part next current after) :
      Swaps part next (.branch node current) (.branch node after)
  | loop {node : Node} {spec : LoopSpec} {remaining : Nat} {finished done : List Json}
      {current after : Activity} {rest : List Node} (inner : Swaps part next current after) :
      Swaps part next (.loop node spec remaining finished done current rest)
        (.loop node spec remaining finished done after rest)
  | parallel {node : Node} {spec : ParallelSpec} {before behind : List (Lane Activity)}
      {queue : List Node} {door : Option Nat} {firstError : Option Fault} {child : Node}
      {current after : Activity} (inner : Swaps part next current after) :
      Swaps part next
        (.parallel node spec (before ++ .running child current :: behind) queue door firstError)
        (.parallel node spec (before ++ .running child after :: behind) queue door firstError)

namespace Activity.Swaps

variable {part next activity after : Activity}

/-- What is swapped was inside. -/
theorem inside (h : Swaps part next activity after) : part.Inside activity := by
  induction h with
  | self => exact .self
  | sequence _ ih => exact .sequence ih
  | branch _ ih => exact .branch ih
  | loop _ ih => exact .loop ih
  | parallel _ ih => exact .parallel (List.mem_append_right _ List.mem_cons_self) ih

/-- Whatever is inside may be swapped for anything else. -/
theorem exists_of_inside (h : part.Inside activity) (next : Activity) :
    ∃ after, part.Swaps next activity after := by
  induction h with
  | self => exact ⟨next, .self⟩
  | sequence _ ih =>
    obtain ⟨after, swaps⟩ := ih
    exact ⟨_, .sequence swaps⟩
  | branch _ ih =>
    obtain ⟨after, swaps⟩ := ih
    exact ⟨_, .branch swaps⟩
  | loop _ ih =>
    obtain ⟨after, swaps⟩ := ih
    exact ⟨_, .loop swaps⟩
  | parallel lane _ ih =>
    obtain ⟨after, swaps⟩ := ih
    obtain ⟨before, behind, rfl⟩ := List.append_of_mem lane
    exact ⟨_, .parallel swaps⟩

/-- Of the lanes of a block each is the one that changes or was there before. -/
theorem lane_cases {α : Type} {before behind : List (Lane α)} {child : Node} {current after : α}
    {lane : Lane α} (member : lane ∈ before ++ .running child after :: behind) :
    lane = .running child after ∨ lane ∈ before ++ .running child current :: behind := by
  rw [List.mem_append, List.mem_cons] at member ⊢
  tauto

end Activity.Swaps

/-- An activity goes on telling the states of nodes if the part that gives way does. -/
theorem Context.Fits.swaps {context : Context} {live : NodeState} {root : Node}
    {part next activity after : Activity} (h : context.Fits live root activity)
    (swaps : part.Swaps next activity after)
    (here : ∀ node, context.Fits live node part → context.Fits live node next) :
    context.Fits live root after := by
  induction swaps generalizing root with
  | self => exact here root h
  | sequence _ ih =>
    cases h with
    | sequence kind state children past present future =>
      exact .sequence kind state children past (ih present) future
  | branch _ ih =>
    cases h with
    | branch kind state children others present =>
      exact .branch kind state children others (ih present)
  | loop _ ih =>
    cases h with
    | loop kind state children past present future =>
      exact .loop kind state children past (ih present) future
  | @parallel node spec before behind queue door firstError child current next _ ih =>
    cases h with
    | parallel kind state children running ended waiting plain entry busy =>
      have inner := ih (running child current (List.mem_append_right _ List.mem_cons_self))
      refine .parallel kind state ?_ (fun n activity member => ?_) (fun n slot member => ?_) waiting
        plain entry (.inr ⟨child, next, List.mem_append_right _ List.mem_cons_self⟩)
      · rw [children, List.map_append, List.map_append, List.map_cons, List.map_cons]
        rfl
      · rcases Activity.Swaps.lane_cases member with same | old
        · cases same
          exact inner
        · exact running n activity old
      · rcases Activity.Swaps.lane_cases member with same | old
        · cases same
        · exact ended n slot old

namespace Run

variable {engine : Engine} {ticket : Nat} {s : RunState}

/-- A cancelled run that hears of its cancellation ends when it goes on. -/
theorem ended_resume_of_cancelled {context : Context} {live : NodeState} {root : Node}
    {activity : Activity} {bell : Bell} (fits : context.Fits live root activity)
    (own : activity.tickets.Nodup) (held : bell.ticket ∈ activity.tickets)
    (aware : bell.Aware s.context.cancelled) (dead : s.context.cancelled = true) :
    ∃ s' outcome, resume engine bell s activity = (s', .ended outcome) := by
  have advance : Advances engine root.ids s (resume engine bell s activity) :=
    advances_resume fits aware held own
  have dead' := advance.acts.cancelled dead
  have heeds := advance.heeds
  generalize resume engine bell s activity = p at dead' heeds
  obtain ⟨s', progress⟩ := p
  cases progress with
  | ended outcome => exact ⟨s', outcome, rfl⟩
  | waiting activity => exact absurd dead' (ne_true_of_eq_false heeds)

/-- When the activity in a lane of a block goes on, nothing else does. -/
theorem resume_lane {deaf : Bool} {node : Node} {spec : ParallelSpec}
    {before after : List (Lane Activity)} {child : Node} {activity : Activity} {queue : List Node}
    {door : Option Nat} {firstError : Option Fault} (closed : door ≠ some ticket)
    (hbefore : ticket ∉ before.flatMap Lane.tickets)
    (hafter : ticket ∉ after.flatMap Lane.tickets) :
    resume engine ⟨ticket, deaf⟩ s
        (.parallel node spec (before ++ .running child activity :: after) queue door firstError) =
      close node
        (goOnLanes node spec
          (laneLimit spec ((before ++ .running child activity :: after).length + queue.length)) queue
          door firstError
          (laneChange before child after (resume engine ⟨ticket, deaf⟩ s activity))) := by
  rw [resume, if_neg closed, resumeLanes_split hbefore hafter]

section

variable {part activity : Activity} (inside : part.Inside activity) (held : ticket ∈ part.tickets)
  (own : activity.tickets.Nodup)

include inside held own

/-- How an activity goes on hangs on how the part of it does that holds the ticket. -/
theorem resume_congr {deaf deaf' : Bool} {s' : RunState}
    (here : resume engine ⟨ticket, deaf⟩ s part = resume engine ⟨ticket, deaf'⟩ s' part) :
    resume engine ⟨ticket, deaf⟩ s activity = resume engine ⟨ticket, deaf'⟩ s' activity := by
  induction inside with
  | self => exact here
  | sequence inner ih | branch inner ih | loop inner ih => rw [resume, resume, ih own]
  | parallel lane inner ih =>
    obtain ⟨distinct, apart⟩ := Activity.nodup_parallel own
    have inLane := inner.tickets_subset held
    have closed := apart ticket (List.mem_flatMap.2 ⟨_, lane, inLane⟩)
    have below := ih (nodup_of_lane distinct lane)
    obtain ⟨before, after, rfl, hbefore, hafter⟩ := split_of_lane distinct lane inLane
    rw [resume_lane closed hbefore hafter, resume_lane closed hbefore hafter, below]

end

/-- When the part that holds the ticket waits for something else, nothing else changes. -/
theorem resume_swaps {part next activity after : Activity} (swaps : part.Swaps next activity after)
    (held : ticket ∈ part.tickets) (own : activity.tickets.Nodup) {deaf : Bool} {s' : RunState}
    (waits : resume engine ⟨ticket, deaf⟩ s part = (s', .waiting next)) :
    resume engine ⟨ticket, deaf⟩ s activity = (s', .waiting after) := by
  induction swaps with
  | self => exact waits
  | sequence _ ih | branch _ ih | loop _ ih =>
    rw [resume, ih own]
    rfl
  | @parallel node spec before behind queue door firstError child current after inner ih =>
    obtain ⟨distinct, apart⟩ := Activity.nodup_parallel own
    have inLane : ticket ∈ (Lane.running child current).tickets := inner.inside.tickets_subset held
    have inLanes : Lane.running child current ∈ before ++ .running child current :: behind :=
      List.mem_append_right _ List.mem_cons_self
    obtain ⟨hbefore, hbehind⟩ := notMem_lanes_beside distinct inLane
    have closed := apart ticket (List.mem_flatMap.2 ⟨_, inLanes, inLane⟩)
    rw [resume_lane closed hbefore hbehind, ih (nodup_of_lane distinct inLanes)]
    rfl

/-- What comes of a ticket that is called in a cancelled run which does not hear of its
cancellation. -/
inductive Unheard (engine : Engine) (ticket : Nat) (s : RunState) (activity : Activity) :
    RunState × Progress → Prop
  /-- The ticket is not that of a delay, so it makes no difference. -/
  | same : Unheard engine ticket s activity (resume engine ⟨ticket, false⟩ s activity)
  /-- The task makes a call that is over at once. -/
  | atOnce {node : Node} {spec : TaskSpec} {call : Call} {left due : Nat} (effects : List Effect)
      (inside : (Activity.pausing node spec call (left + 1) ticket due).Inside activity) :
      Unheard engine ticket s activity
        (resume engine ⟨ticket, false⟩ ((s.place engine node.id call).2.applyAll effects) activity)
  /-- The task makes a call and waits for the answer. -/
  | later {node : Node} {spec : TaskSpec} {call : Call} {left due : Nat} {limit : Option Nat}
      {after : Activity}
      (swaps : (Activity.pausing node spec call (left + 1) ticket due).Swaps
        (.calling node spec call left (s.place engine node.id call).1 s.world.tickets
          (s.now + (s.place engine node.id call).1.delay) limit) activity after)
      (waits : resume engine ⟨ticket, true⟩ s (.pausing node spec call (left + 1) ticket due) =
        (((s.place engine node.id call).2.defer
            (s.place engine node.id call).1.opening).takeTicket.2,
          .waiting (.calling node spec call left (s.place engine node.id call).1 s.world.tickets
            (s.now + (s.place engine node.id call).1.delay) limit))) :
      Unheard engine ticket s activity
        (((s.place engine node.id call).2.defer
          (s.place engine node.id call).1.opening).takeTicket.2, .waiting after)

/-- A task that is called in a cancelled run ends with the cancellation as soon as it is answered.
-/
theorem settle_of_cancelled (dead : s.context.cancelled = true) (ticket due : Nat) (node : Node)
    (spec : TaskSpec) (call : Call) (left : Nat) (again : RunState → RunState × Progress)
    (outcome : Except Fault Json) :
    close node (settle engine node spec call left again s outcome) =
      resume engine ⟨ticket, false⟩ s (.pausing node spec call (left + 1) ticket due) := by
  have quiet : (s.context.cancelled && !false) = true := by
    rw [dead]
    rfl
  unfold settle
  rw [if_pos dead, resume, if_pos rfl, rested, if_pos quiet]

/-- The task whose delay is over makes a call in a cancelled run. -/
theorem unheard_pausing (dead : s.context.cancelled = true) {node : Node} {spec : TaskSpec}
    {call : Call} {left due : Nat} {activity : Activity}
    (inside : (Activity.pausing node spec call (left + 1) ticket due).Inside activity)
    (own : activity.tickets.Nodup) :
    Unheard engine ticket s activity (resume engine ⟨ticket, true⟩ s activity) := by
  have held : ticket ∈ (Activity.pausing node spec call (left + 1) ticket due).tickets :=
    List.mem_cons_self
  have goes : resume engine ⟨ticket, true⟩ s (.pausing node spec call (left + 1) ticket due) =
      close node (attempt engine node spec call (left + 1) s) := by
    have awake : ¬(s.context.cancelled && !true) = true := by
      rw [Bool.not_true, Bool.and_false]
      exact Bool.false_ne_true
    rw [resume, if_pos rfl, rested, if_neg awake]
  -- A call that is over at once leaves the run as cancelled as it was.
  have answered {effects : List Effect} {again : RunState → RunState × Progress}
      {outcome : Except Fault Json}
      (settles : attempt engine node spec call (left + 1) s = settle engine node spec call left again
        ((s.place engine node.id call).2.applyAll effects) outcome) :
      Unheard engine ticket s activity (resume engine ⟨ticket, true⟩ s activity) := by
    have dead' : ((s.place engine node.id call).2.applyAll effects).context.cancelled = true := by
      rw [RunState.cancelled_applyAll]
      exact Bool.or_eq_true_iff.2 (.inl dead)
    rw [settles, settle_of_cancelled dead' ticket due] at goes
    rw [resume_congr inside held own goes]
    exact .atOnce effects inside
  by_cases atOnce : (s.place engine node.id call).1.delay = 0
  · exact answered (by simp only [attempt]; rw [if_pos atOnce])
  · by_cases late : (spec.timeout.map (s.place engine node.id call).2.world.wakeAt).any
        (· ≤ (s.place engine node.id call).2.now) = true
    · exact answered (by simp only [attempt]; rw [if_neg atOnce, if_pos late])
    · have waits : attempt engine node spec call (left + 1) s =
          (((s.place engine node.id call).2.defer
            (s.place engine node.id call).1.opening).takeTicket.2,
          .waiting (.calling node spec call left (s.place engine node.id call).1 s.world.tickets
            (s.now + (s.place engine node.id call).1.delay)
            (spec.timeout.map (s.place engine node.id call).2.world.wakeAt))) := by
        simp only [attempt]
        rw [if_neg atOnce, if_neg late]
        rfl
      rw [waits, close] at goes
      obtain ⟨after, swaps⟩ := Activity.Swaps.exists_of_inside inside _
      rw [resume_swaps swaps held own goes]
      exact .later swaps goes

/-- To what does not wait before its next attempt it makes no difference whether the cancellation is
heard. -/
theorem indifferent_or_pausing {part : Activity} (holds : part.Holds ticket) :
    (∀ s : RunState, resume engine ⟨ticket, true⟩ s part = resume engine ⟨ticket, false⟩ s part) ∨
      ∃ node spec call left due, part = .pausing node spec call (left + 1) ticket due := by
  cases holds with
  | calling | polling => exact .inl fun s => by rw [resume, resume]
  | pausing => exact .inr ⟨_, _, _, _, _, rfl⟩
  | turn => exact .inl fun s => by rw [resume, resume, if_pos rfl, if_pos rfl]

/-- What a cancelled run comes to that does not hear of its cancellation. -/
theorem unheard_resume (engine : Engine) (ticket : Nat) {context : Context} {live : NodeState}
    {root : Node} {activity : Activity} (fits : context.Fits live root activity)
    (own : activity.tickets.Nodup) (dead : s.context.cancelled = true) :
    Unheard engine ticket s activity (resume engine ⟨ticket, true⟩ s activity) := by
  by_cases held : ticket ∈ activity.tickets
  · obtain ⟨part, inside, holds⟩ := fits.exists_holds held
    rcases indifferent_or_pausing holds with same | ⟨node, spec, call, left, due, rfl⟩
    · rw [resume_congr inside holds.held own (same s)]
      exact .same
    · exact unheard_pausing dead inside own
  · have idle (deaf : Bool) : resume engine ⟨ticket, deaf⟩ s activity = (s, .waiting activity) :=
      resume_of_notMem held s
    rw [idle true, ← idle false]
    exact .same

end Run

end Stepwise
