import Stepwise.Proofs.Run.Calls
import Stepwise.Proofs.Run.Schedule

/-!
# Undisturbed runs

A run that nobody cancels is not cancelled. `Executor.Spares` says that no answer to a call of an
execution cancels it, and what a run waits for keeps to that (`Activity.Spares`): an answer that is
still to come is one of the executor. So a run on which nobody acts from outside ends as a
cancelled one in no case, whatever other runs do to the world between its steps
(`Undisturbed.plain`); when its time is up it ends with a fault of its own.
-/

namespace Stepwise

/-- Some effects do not cancel an execution. -/
def Effect.Spare (id : String) (effects : List Effect) : Prop :=
  effects.any (Effect.cancels id) = false

theorem Effect.Spare.append {id : String} {effects more : List Effect} (h : Spare id effects)
    (h' : Spare id more) : Spare id (effects ++ more) := by
  unfold Spare at *
  rw [List.any_append, h, h', Bool.or_false]

/-- A call does not cancel its execution, neither as it begins nor as it is answered. -/
structure Reply.Spares (id : String) (reply : Reply) : Prop where
  opening : Effect.Spare id reply.opening
  effects : Effect.Spare id reply.effects

/-- No answer to a call of an execution cancels it. -/
def Executor.Spares (executor : Executor) (id : String) : Prop :=
  ∀ earlier entry, entry.context.executionId = id → (executor earlier entry).Spares id

/-- No answer for which an activity waits cancels the execution. -/
inductive Activity.Spares (id : String) : Activity → Prop
  | calling {node : Node} {spec : TaskSpec} {call : Call} {left : Nat} {reply : Reply}
      {ticket due : Nat} {limit : Option Nat} (spares : reply.Spares id) :
      Spares id (.calling node spec call left reply ticket due limit)
  | pausing {node : Node} {spec : TaskSpec} {call : Call} {left ticket due : Nat} :
      Spares id (.pausing node spec call left ticket due)
  | polling {node : Node} {spec : WaitSpec} {deadline : Option Nat} {ticket due : Nat} :
      Spares id (.polling node spec deadline ticket due)
  | sequence {node : Node} {done : List Json} {current : Activity} {rest : List Node}
      (inner : Spares id current) : Spares id (.sequence node done current rest)
  | branch {node : Node} {current : Activity} (inner : Spares id current) :
      Spares id (.branch node current)
  | loop {node : Node} {spec : LoopSpec} {remaining : Nat} {finished done : List Json}
      {current : Activity} {rest : List Node} (inner : Spares id current) :
      Spares id (.loop node spec remaining finished done current rest)
  | parallel {node : Node} {spec : ParallelSpec} {lanes : List (Lane Activity)} {queue : List Node}
      {door : Option Nat} {firstError : Option Fault}
      (inner : ∀ child activity, .running child activity ∈ lanes → Spares id activity) :
      Spares id (.parallel node spec lanes queue door firstError)

/-- What still waits when a node has made some progress. -/
def Progress.current? : Progress → Option Activity
  | .ended _ => none
  | .waiting activity => some activity

/-- The step that waits, if one does. -/
def Course.current? : Course → Option Activity
  | .ended _ => none
  | .waiting _ current _ => some current

namespace Run

/-- A run of an execution is not cancelled, and no call will cancel it whose beginning is put off or
for whose answer it waits. -/
structure Calm (id : String) (s : RunState) (current : Option Activity) : Prop where
  live : s.context.cancelled = false
  own : s.context.executionId = id
  openings : Effect.Spare id s.world.openings
  spares : ∀ activity ∈ current, activity.Spares id

variable {engine : Engine} {id : String} {s : RunState} {node : Node} {bell : Bell}

theorem Calm.ended {current : Option Activity} (h : Calm id s current) : Calm id s none :=
  ⟨h.live, h.own, h.openings, nofun⟩

theorem Calm.waiting {current : Option Activity} (h : Calm id s current) {activity : Activity}
    (spares : activity.Spares id) : Calm id s (some activity) :=
  ⟨h.live, h.own, h.openings, fun _ member => Option.mem_some.1 member ▸ spares⟩

/-- A calm run takes a ticket for a wait. -/
theorem Calm.wait (h : Calm id s none) {activity : Activity} (spares : activity.Spares id) :
    Calm id s.takeTicket.2 (some activity) :=
  ⟨h.live, h.own, h.openings, fun _ member => Option.mem_some.1 member ▸ spares⟩

theorem Calm.applyAll (h : Calm id s none) {effects : List Effect}
    (spare : Effect.Spare id effects) : Calm id (s.applyAll effects) none := by
  refine ⟨?_, (s.executionId_applyAll _).trans h.own, ?_, nofun⟩
  · have quiet : effects.any (Effect.cancels id) = false := spare
    rw [s.cancelled_applyAll, h.live, h.own, quiet]
    rfl
  · rw [s.openings_applyAll]
    exact h.openings

/-- What is put off does not cancel a calm run. -/
theorem Calm.flush {activity : Activity} (h : Calm id s (some activity)) :
    Calm id s.flush (some activity) := by
  have emptied : Calm id { s with world := { s.world with openings := [] } } none :=
    ⟨h.live, h.own, rfl, nofun⟩
  exact (emptied.applyAll h.openings).waiting (h.spares activity rfl)

/-- To close a node disturbs nobody. -/
theorem calm_close {p : RunState × Progress} (h : Calm id p.1 p.2.current?) :
    Calm id (close node p).1 (close node p).2.current? := by
  obtain ⟨s', progress⟩ := p
  cases progress with
  | waiting activity => exact h
  | ended outcome =>
    exact ⟨(s'.cancelled_record node.id outcome).trans h.live,
      (s'.executionId_record node.id outcome).trans h.own,
      (s'.openings_record node.id outcome).symm ▸ h.openings, nofun⟩

/-! ## Starting -/

/-- After an attempt a task goes on undisturbed. -/
theorem calm_settle {spec : TaskSpec} {call : Call} {left : Nat}
    {again : RunState → RunState × Progress} {outcome : Except Fault Json}
    (next : ∀ s, Calm id s none → Calm id (again s).1 (again s).2.current?) (h : Calm id s none) :
    Calm id (settle engine node spec call left again s outcome).1
      (settle engine node spec call left again s outcome).2.current? := by
  unfold settle
  split
  · exact h
  · cases outcome with
    | ok value => exact h
    | error fault =>
      have retried : Calm id (s.retry node.id (attempts spec - left) fault) none :=
        ⟨h.live, h.own, h.openings, nofun⟩
      dsimp only
      split
      · exact h
      · split
        · exact next _ retried
        · exact retried.wait .pausing

/-- However often it is called, a task that spares a run leaves it undisturbed. -/
theorem calm_attempt (spares : engine.executor.Spares id) (spec : TaskSpec) (call : Call)
    (left : Nat) : ∀ s : RunState, Calm id s none →
      Calm id (attempt engine node spec call left s).1
        (attempt engine node spec call left s).2.current? := by
  induction left with
  | zero => exact fun s h => h
  | succ left ih =>
    intro s h
    have answer : (s.place engine node.id call).1.Spares id :=
      spares s.world.calls ⟨node.id, s.now, s.context, call⟩ h.own
    have placed : Calm id (s.place engine node.id call).2 none := ⟨h.live, h.own, h.openings, nofun⟩
    simp only [attempt]
    split
    · exact calm_settle ih (placed.applyAll (answer.opening.append answer.effects))
    · split
      · exact calm_settle ih (placed.applyAll answer.opening)
      · have deferred : Calm id
            ((s.place engine node.id call).2.defer (s.place engine node.id call).1.opening) none :=
          ⟨h.live, h.own, h.openings.append answer.opening, nofun⟩
        exact deferred.wait (.calling answer)

theorem calm_poll (spec : WaitSpec) (deadline : Option Nat) (h : Calm id s none) :
    Calm id (poll engine node spec deadline s).1
      (poll engine node spec deadline s).2.current? := by
  unfold poll
  split
  · exact h
  · split
    · exact h
    · dsimp only
      split
      · exact h
      · exact h.wait .polling

theorem calm_asSequence {p : RunState × Course} (h : Calm id p.1 p.2.current?) :
    Calm id (asSequence node p).1 (asSequence node p).2.current? := by
  obtain ⟨s', course⟩ := p
  cases course with
  | ended outcome => exact h
  | waiting done current rest => exact h.waiting (.sequence (h.spares current rfl))

theorem calm_asBranch {p : RunState × Progress} (h : Calm id p.1 p.2.current?) :
    Calm id (asBranch node p).1 (asBranch node p).2.current? := by
  obtain ⟨s', progress⟩ := p
  cases progress with
  | ended outcome => exact h
  | waiting current => exact h.waiting (.branch (h.spares current rfl))

section

variable {nodes : List Node}

/-- Steps in turn that spare a run leave it undisturbed. -/
theorem calm_startAll (each : ∀ node ∈ nodes, ∀ s, Calm id s none →
      Calm id (start engine s node).1 (start engine s node).2.current?) (done : List Json) :
    ∀ s : RunState, Calm id s none →
      Calm id (startAll engine done s nodes).1 (startAll engine done s nodes).2.current? := by
  induction nodes generalizing done with
  | nil =>
    intro s h
    rw [startAll]
    exact h
  | cons node rest ih =>
    intro s h
    have first := each node List.mem_cons_self s h
    have ih := ih fun n member => each n (List.mem_cons_of_mem _ member)
    rw [startAll]
    generalize start engine s node = p at first
    obtain ⟨s', progress⟩ := p
    cases progress with
    | waiting current => exact first
    | ended outcome =>
      cases outcome with
      | error fault => exact first
      | ok value => exact ih _ s' first

theorem calm_startBranch (each : ∀ node ∈ nodes, ∀ s, Calm id s none →
      Calm id (start engine s node).1 (start engine s node).2.current?) (side : Branch)
    (h : Calm id s none) :
    Calm id (startBranch engine side s nodes).1
      (startBranch engine side s nodes).2.current? := by
  induction nodes with
  | nil =>
    rw [startBranch]
    exact h
  | cons node rest ih =>
    rw [startBranch]
    split
    · exact each node List.mem_cons_self s h
    · exact ih fun n member => each n (List.mem_cons_of_mem _ member)

end

/-- So do the rounds of a loop. -/
theorem calm_rounds {spec : LoopSpec} {body : RunState → RunState × Course}
    (round : ∀ s, Calm id s none → Calm id (body s).1 (body s).2.current?) (remaining : Nat) :
    ∀ (first : Bool) (finished : List Json) (s : RunState), Calm id s none →
      Calm id (rounds node spec body remaining first finished s).1
        (rounds node spec body remaining first finished s).2.current? := by
  induction remaining with
  | zero => exact fun _ _ s h => h
  | succ remaining ih =>
    intro first finished s h
    rw [rounds]
    split
    · exact h
    · split
      · exact h
      · have ready : Calm id (if first then s else s.rearm node.children) none := by
          cases first with
          | true => exact h
          | false =>
            exact ⟨(s.cancelled_rearm _).trans h.live, (s.executionId_rearm _).trans h.own, h.openings,
              h.spares⟩
        have done := round _ ready
        generalize body (if first then s else s.rearm node.children) = p at done
        obtain ⟨s', course⟩ := p
        cases course with
        | waiting done' current rest => exact done.waiting (.loop (done.spares current rfl))
        | ended outcome =>
          dsimp only
          split
          · exact done
          · exact ih false _ s' done

theorem calm_stop (before after : List (Lane Activity)) (queue : List Node)
    (outcome : Except Fault Json) (h : Calm id s none) :
    Calm id (stop before after queue outcome s).1
      (stop before after queue outcome s).2.current? :=
  ⟨(s.cancelled_sweep _).trans h.live, (s.executionId_sweep _).trans h.own,
    (s.openings_sweep _).symm ▸ h.openings, nofun⟩

/-- No answer for which any of some lanes waits cancels the execution. -/
abbrev LanesSpare (id : String) (lanes : List (Lane Activity)) : Prop :=
  ∀ child activity, .running child activity ∈ lanes → activity.Spares id

section

variable {block : Node} {spec : ParallelSpec} {limit : Nat}

/-- A block that goes on disturbs nobody. -/
theorem calm_carryOn {lanes : List (Lane Activity)} (firstError : Option Fault)
    (spare : LanesSpare id lanes) (h : Calm id s none) (queue : List Node) :
    Calm id (carryOn block spec limit lanes firstError s queue).1
      (carryOn block spec limit lanes firstError s queue).2.current? := by
  cases queue with
  | nil =>
    rw [carryOn]
    split
    · exact h.waiting (.parallel spare)
    · exact h
  | cons child rest =>
    rw [carryOn]
    split
    · exact h.waiting (.parallel spare)
    · exact h.wait (.parallel spare)

theorem calm_afterChild {before after : List (Lane Activity)} (queue : List Node)
    (firstError : Option Fault) (child : Node) (outcome : Except Fault Json)
    (spare : LanesSpare id before) (spare' : LanesSpare id after) (h : Calm id s none) :
    Calm id (afterChild block spec limit queue firstError s before child outcome after).1
      (afterChild block spec limit queue firstError s before child outcome after).2.current? := by
  unfold afterChild
  split
  · exact calm_carryOn _ (Lane.forall_running_append
      (Lane.forall_running_append spare (Lane.forall_running_ended _ _)) spare') h queue
  · exact calm_stop _ _ _ _ h

end

/-- A node that starts leaves a run that it spares undisturbed. -/
theorem calm_start (spares : engine.executor.Spares id) (node : Node) (s : RunState)
    (h : Calm id s none) : Calm id (start engine s node).1 (start engine s node).2.current? := by
  induction node using Node.induction generalizing s with
  | step node ih =>
    have begun : Calm id (s.startNode node) none := ⟨h.live, h.own, h.openings, nofun⟩
    rw [start_eq, if_neg (ne_true_of_eq_false h.live)]
    refine calm_close ?_
    unfold work
    split
    · exact calm_attempt spares _ _ _ _ begun
    · exact calm_asSequence (calm_startAll ih [] _ begun)
    · exact calm_carryOn none (fun _ _ member => absurd member List.not_mem_nil) begun _
    · exact calm_asBranch (calm_startBranch ih _ begun)
    · exact calm_rounds (calm_startAll ih []) _ true [] _ begun
    · exact calm_poll _ _ begun

/-! ## Going on -/

theorem calm_andThen (spares : engine.executor.Spares id) {done : List Json} {rest : List Node}
    {p : RunState × Progress} (h : Calm id p.1 p.2.current?) :
    Calm id (andThen engine done rest p).1 (andThen engine done rest p).2.current? := by
  obtain ⟨s', progress⟩ := p
  cases progress with
  | waiting current => exact h
  | ended outcome =>
    cases outcome with
    | error fault => exact h
    | ok value => exact calm_startAll (fun n _ => calm_start spares n) _ s' h

theorem calm_goOnLoop (spares : engine.executor.Spares id) {spec : LoopSpec} {remaining : Nat}
    {finished : List Json} {p : RunState × Course} (h : Calm id p.1 p.2.current?) :
    Calm id (goOnLoop engine node spec remaining finished p).1
      (goOnLoop engine node spec remaining finished p).2.current? := by
  obtain ⟨s', course⟩ := p
  cases course with
  | waiting done current rest => exact h.waiting (.loop (h.spares current rfl))
  | ended outcome =>
    simp only [goOnLoop]
    split
    · exact h
    · exact calm_rounds (calm_startAll (fun n _ => calm_start spares n) []) _ _ _ s' h

/-- No answer for which the lanes of a block wait that have changed cancels the execution. -/
def LaneChange.Spares (id : String) : LaneChange → Prop
  | .none lanes => LanesSpare id lanes
  | .ended before _ _ after => LanesSpare id before ∧ LanesSpare id after

theorem LaneChange.Spares.cons {change : LaneChange} (h : change.Spares id) {lane : Lane Activity}
    (spares : LanesSpare id [lane]) : (change.cons lane).Spares id := by
  cases change with
  | none lanes => exact Lane.forall_running_append spares h
  | ended before child outcome after => exact ⟨Lane.forall_running_append spares h.1, h.2⟩

theorem calm_goOnLanes {spec : ParallelSpec} {limit : Nat} {queue : List Node} {door : Option Nat}
    {firstError : Option Fault} {p : RunState × LaneChange} (h : Calm id p.1 none)
    (spare : p.2.Spares id) :
    Calm id (goOnLanes node spec limit queue door firstError p).1
      (goOnLanes node spec limit queue door firstError p).2.current? := by
  obtain ⟨s', change⟩ := p
  cases change with
  | none lanes => exact h.waiting (.parallel spare)
  | ended before child outcome after => exact calm_afterChild _ _ _ _ spare.1 spare.2 h

/-- A child that starts in its turn leaves the run undisturbed. -/
theorem calm_enter (spares : engine.executor.Spares id) {spec : ParallelSpec} {limit : Nat}
    {lanes : List (Lane Activity)} (firstError : Option Fault) (spare : LanesSpare id lanes)
    (h : Calm id s none) (queue : List Node) :
    Calm id (enter engine node spec limit lanes firstError s queue).1
      (enter engine node spec limit lanes firstError s queue).2.current? := by
  cases queue with
  | nil => exact h.waiting (.parallel spare)
  | cons child rest =>
    have first := calm_start spares child s h
    rw [enter]
    generalize start engine s child = p at first
    obtain ⟨s', progress⟩ := p
    cases progress with
    | waiting activity =>
      exact calm_carryOn _ (Lane.forall_running_append spare
        (Lane.forall_running_singleton (first.spares activity rfl))) first.ended rest
    | ended outcome =>
      exact calm_afterChild _ _ _ _ spare (fun _ _ member => absurd member List.not_mem_nil) first

theorem calm_resumeLanes {lanes : List (Lane Activity)}
    (each : ∀ child activity, .running child activity ∈ lanes → ∀ s : RunState,
      Calm id s (some activity) → Calm id (resume engine bell s activity).1
        (resume engine bell s activity).2.current?)
    (spare : LanesSpare id lanes) (h : Calm id s none) :
    Calm id (resumeLanes engine bell s lanes).1 none ∧
      (resumeLanes engine bell s lanes).2.Spares id := by
  induction lanes generalizing s with
  | nil => exact ⟨h, spare⟩
  | cons lane rest ih =>
    have ih {s : RunState} (h : Calm id s none) :=
      ih (s := s) (fun child activity member => each child activity (List.mem_cons_of_mem _ member))
        (fun child activity member => spare child activity (List.mem_cons_of_mem _ member)) h
    have others : LanesSpare id rest := fun child activity member =>
      spare child activity (List.mem_cons_of_mem _ member)
    rw [resumeLanes]
    cases lane with
    | ended child slot =>
      simp only [resumeLane]
      exact ⟨(ih h).1, (ih h).2.cons (Lane.forall_running_ended _ _)⟩
    | running child activity =>
      have spares := spare child activity List.mem_cons_self
      have first := each child activity List.mem_cons_self s (h.waiting spares)
      rw [resumeLane]
      generalize resume engine bell s activity = p at first
      obtain ⟨s', progress⟩ := p
      cases progress with
      | ended outcome => exact ⟨first, fun _ _ member => absurd member List.not_mem_nil, others⟩
      | waiting activity =>
        have later := ih first.ended
        exact ⟨later.1, later.2.cons (Lane.forall_running_singleton (first.spares activity rfl))⟩

/-- Whatever goes on leaves a run that it spares undisturbed. -/
theorem calm_resume (spares : engine.executor.Spares id) (activity : Activity) (s : RunState)
    (h : Calm id s (some activity)) : Calm id (resume engine bell s activity).1
      (resume engine bell s activity).2.current? := by
  induction activity using Activity.induction generalizing s with
  | calling node spec call left reply ticket due limit =>
    rw [resume]
    split
    · refine calm_close ?_
      cases h.spares _ rfl with
      | calling answer =>
        unfold answered
        dsimp only
        split
        · exact calm_settle (calm_attempt spares _ _ _) h.ended
        · exact calm_settle (calm_attempt spares _ _ _) (h.ended.applyAll answer.effects)
    · exact h
  | pausing node spec call left ticket due =>
    rw [resume]
    split
    · refine calm_close ?_
      unfold rested
      split
      · exact h.ended
      · exact calm_attempt spares _ _ _ _ h.ended
    · exact h
  | polling node spec deadline ticket due =>
    rw [resume]
    split
    · exact calm_close (calm_poll _ _ h.ended)
    · exact h
  | sequence node done current rest ih =>
    cases h.spares _ rfl with
    | sequence inner =>
      rw [resume]
      exact calm_close (calm_asSequence (calm_andThen spares (ih s (h.waiting inner))))
  | branch node current ih =>
    cases h.spares _ rfl with
    | branch inner =>
      rw [resume]
      exact calm_close (calm_asBranch (ih s (h.waiting inner)))
  | loop node spec remaining finished done current rest ih =>
    cases h.spares _ rfl with
    | loop inner =>
      rw [resume]
      exact calm_close (calm_goOnLoop spares (calm_andThen spares (ih s (h.waiting inner))))
  | parallel node spec lanes queue door firstError ih =>
    cases h.spares _ rfl with
    | parallel inner =>
      rw [resume]
      refine calm_close ?_
      split
      · exact calm_enter spares _ inner h.ended queue
      · have changed := calm_resumeLanes (fun child activity member s =>
          ih child activity member s) inner h.ended
        exact calm_goOnLanes changed.1 changed.2

/-! ## Among others -/

/-- Nobody acts on a run from outside with this. -/
def Stimulus.Idle (stimulus : Stimulus) : Prop := ∀ effects, stimulus = .act effects → effects = []

/-- The run of a tree on which nobody acts from outside. Between two of its steps others may change
the world, so long as they give no ticket back and put nothing off. -/
inductive Undisturbed (engine : Engine) (root : Node) (limit : Option Duration) (start : RunState) :
    RunState × Stage → Prop
  | launch : Undisturbed engine root limit start (launch engine root limit start)
  | step {s : RunState} {activity : Activity} {bound : Option TimeLimit}
      (before : Undisturbed engine root limit start (s, .active activity bound)) {world : World}
      (tickets : s.world.tickets ≤ world.tickets) (settled : world.openings = [])
      {stimulus : Stimulus} (idle : stimulus.Idle) :
      Undisturbed engine root limit start
        (step engine ⟨world, s.context⟩ (.active activity bound) stimulus)

/-- The outcome of a run that does not count as cancelled. -/
def Uncancelled : Except Fault RunResult → Prop
  | .ok result => result.isCancelled = false
  | .error fault => fault.isCancelled = false

/-- A run that nobody cancels: it waits uncancelled, or its outcome is no cancellation. -/
def Spared (id : String) : RunState × Stage → Prop
  | (s, .active activity _) => Calm id s (some activity)
  | (_, .ended outcome) => Uncancelled outcome

variable {root : Node} {limit : Option Duration} {start : RunState} {p : RunState × Stage}

/-- What others do to the world leaves a run sound. -/
theorem Sound.beside {activity : Activity} {bound : Option TimeLimit}
    (h : Sound root s (.active activity bound)) {world : World}
    (tickets : s.world.tickets ≤ world.tickets) :
    Sound root ⟨world, s.context⟩ (.active activity bound) := by
  cases h with
  | active fits alive own given =>
    exact .active fits alive own fun ticket held => Nat.lt_of_lt_of_le (given ticket held) tickets

/-- A run that is not disturbed stays sound. -/
theorem Undisturbed.sound (h : Undisturbed engine root limit start p)
    (untouched : start.context.Untouched root) (distinct : root.ids.Nodup) :
    Sound root p.1 p.2 := by
  induction h with
  | launch => exact sound_launch untouched distinct
  | step before tickets _ idle ih => exact sound_step (ih.beside tickets) distinct _

theorem spared_ofProgress (bound : Option TimeLimit) {p : RunState × Progress}
    (calm : Calm id p.1 p.2.current?) (heeds : Heeds p.1.context.cancelled p.2.outcome?) :
    Spared id (ofProgress bound p) := by
  obtain ⟨s', progress⟩ := p
  cases progress with
  | waiting activity => exact Calm.flush calm
  | ended outcome =>
    rw [calm.live] at heeds
    cases outcome with
    | ok value => rfl
    | error fault =>
      have plain : fault.isCancelled = false := heeds
      simp only [ofProgress, report, plain, Bool.false_eq_true, if_false]
      exact plain

/-- A run that is launched is spared. -/
theorem spared_launch (spares : engine.executor.Spares id) (calm : Calm id start none) :
    Spared id (launch engine root limit start) :=
  spared_ofProgress _ (calm_start spares root start calm) (advances_start engine root start).heeds

/-- Every step leaves a run that is not acted on spared. -/
theorem spared_step (spares : engine.executor.Spares id) {activity : Activity}
    {bound : Option TimeLimit} (sound : Sound root s (.active activity bound))
    (calm : Calm id s (some activity)) {stimulus : Stimulus} (idle : stimulus.Idle) :
    Spared id (step engine s (.active activity bound) stimulus) := by
  cases sound with
  | active fits alive own given =>
    cases stimulus with
    | wake bell =>
      have aware : bell.Aware s.context.cancelled := fun dead => by
        rw [calm.live] at dead
        cases dead
      by_cases held : bell.ticket ∈ activity.tickets
      · exact spared_ofProgress bound (calm_resume spares activity s calm)
          (advances_resume fits aware held own).heeds
      · rw [step, resume_of_notMem held]
        exact calm.flush
    | heed =>
      have live : s.context.cancelled = false := calm.live
      simp only [step, heed, live]
      exact calm
    | expire =>
      cases bound with
      | none => exact calm
      | some bound => rfl
    | act effects =>
      cases idle effects rfl
      exact calm

/-- A run that nobody cancels, by an answer or from outside, counts as cancelled in no case. -/
theorem Undisturbed.spared (h : Undisturbed engine root limit start p)
    (spares : engine.executor.Spares id) (calm : Calm id start none)
    (untouched : start.context.Untouched root) (distinct : root.ids.Nodup) : Spared id p := by
  induction h with
  | launch => exact spared_launch spares calm
  | @step _ _ _ before world tickets settled _ idle ih =>
    have sound := (before.sound untouched distinct).beside tickets
    have quiet : Effect.Spare id world.openings := by
      rw [settled]
      rfl
    exact spared_step spares sound ⟨ih.live, ih.own, quiet, ih.spares⟩ idle

/-- A run that ends well reports the results that it has. -/
theorem results_ofProgress {bound : Option TimeLimit} {p : RunState × Progress} {result : RunResult}
    (ended : (ofProgress bound p).2 = .ended (.ok result)) :
    result.results = (ofProgress bound p).1.context.results := by
  obtain ⟨s', progress⟩ := p
  cases progress with
  | waiting activity => cases ended
  | ended outcome =>
    cases outcome with
    | ok value =>
      cases ended
      rfl
    | error fault =>
      simp only [ofProgress, report] at ended ⊢
      split at ended
      · cases ended
        rfl
      · cases ended

/-- The results of a run that has ended are those in its context. -/
theorem Undisturbed.results (h : Undisturbed engine root limit start p) {result : RunResult}
    (ended : p.2 = .ended (.ok result)) : result.results = p.1.context.results := by
  cases h with
  | launch => exact results_ofProgress ended
  | @step s activity bound before world tickets _ stimulus idle =>
    cases stimulus with
    | wake bell => exact results_ofProgress ended
    | heed =>
      simp only [Run.step, heed] at ended ⊢
      split at ended
      · exact results_ofProgress ended
      · cases ended
    | expire =>
      cases bound with
      | none => cases ended
      | some bound => cases ended
    | act effects => cases ended

end Run

end Stepwise
