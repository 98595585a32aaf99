import Stepwise.Run.Machine
import Stepwise.Proofs.Run.Unheard

/-!
# Schedules

A run goes on step by step, at any times and for any stimuli, so what is shown of every state that
it reaches holds of every schedule. All that a step does is done by acts on the tree of the run
(`Move.acts`), and every state that is reached is sound: either the run waits for something and
the states of its nodes are what it tells, or it has ended and its tree is at rest
(`Reaches.sound`).
-/

namespace Stepwise.Run

variable {engine : Engine} {root : Node} {limit : Option Duration} {s s₀ : RunState} {stage : Stage}

/-- A run at a later time. -/
def later (s : RunState) (time : Nat) : RunState := { s with world := s.world.advancedTo time }

/-- One step of a run. Any time may have passed since the one before, and anything may come; but
only a deaf run does not hear of its cancellation when the end of a delay meets it. -/
inductive Move (engine : Engine) (manner : Manner) : RunState × Stage → RunState × Stage → Prop
  | step (s : RunState) (stage : Stage) (time : Nat) (stimulus : Stimulus)
      (heard : manner ≠ .deaf → s.context.cancelled = true → stimulus.isDeaf = false) :
      Move engine manner (s, stage) (step engine (later s time) stage stimulus)

/-- Some steps of a run. -/
abbrev Leads (engine : Engine) (manner : Manner) : RunState × Stage → RunState × Stage → Prop :=
  Relation.ReflTransGen (Move engine manner)

/-- The run of a tree from some state may come to a stage. -/
def Reaches (engine : Engine) (root : Node) (limit : Option Duration) (s₀ : RunState)
    (p : RunState × Stage) : Prop := Leads engine .deaf (launch engine root limit s₀) p

/-- One step of a run that may be deaf. -/
theorem Move.any (engine : Engine) (s : RunState) (stage : Stage) (time : Nat)
    (stimulus : Stimulus) :
    Move engine .deaf (s, stage) (Run.step engine (later s time) stage stimulus) :=
  .step s stage time stimulus fun other => absurd rfl other

/-- A run that has ended stays as it is. -/
theorem play_ended (steps : Nat) (actions : List Action) (s : RunState)
    (outcome : Except Fault RunResult) :
    play engine steps actions (s, .ended outcome) = (s, .ended outcome) := by
  cases steps <;> rfl

/-! ## Cancelled runs -/

/-- The outcomes of a cancelled run: it counts as cancelled, or its time limit has passed. -/
def Cancelled : Except Fault RunResult → Prop
  | .ok result => result.ending = .cancelled
  | .error fault => ∃ millis, fault = .workflowTimeout millis

/-! ## Sound states -/

/-- A stage of the run of a tree, with the states of nodes that it tells. -/
inductive Sound (root : Node) (s : RunState) : Stage → Prop
  | active {activity : Activity} {limit : Option TimeLimit} {live : NodeState}
      (fits : s.context.Fits live root activity) (alive : Alive s live)
      (distinct : activity.tickets.Nodup)
      (given : ∀ ticket ∈ activity.tickets, ticket < s.world.tickets) :
      Sound root s (.active activity limit)
  | ended {outcome : Except Fault RunResult} (settled : s.context.Settled root)
      (heeds : s.context.cancelled = true → Cancelled outcome) : Sound root s (.ended outcome)

/-- A cancelled run ends as one that was cancelled. -/
theorem cancelled_report {outcome : Except Fault Json} (h : Heeds true (some outcome)) :
    Cancelled (report s outcome) := by
  cases outcome with
  | ok value => cases h
  | error fault =>
    have hfault : fault.isCancelled = true := h
    simp only [report, hfault, if_true]
    rfl

/-- What a call or somebody outside does leaves a waiting run waiting for the same. -/
theorem fits_applyAll {live : NodeState} {activity : Activity}
    (fits : s.context.Fits live root activity) (alive : Alive s live) (effects : List Effect) :
    ∃ live', (s.applyAll effects).context.Fits live' root activity ∧
      Alive (s.applyAll effects) live' := by
  rcases s.phase_applyAll effects with same | ⟨dead, halted⟩
  · refine ⟨live, fits.transfer (fun id _ => (congrArg Phase.state (same id)).trans)
      fun id _ _ => same id, alive.imp_right ?_⟩
    exact fun dead => ⟨dead.1, by rw [s.cancelled_applyAll, dead.2, Bool.true_or]⟩
  · have state (id : String) : (s.applyAll effects).context.state id =
        if s.context.state id = .running then .cancelled else s.context.state id :=
      (congrArg Phase.state (halted id)).trans (s.context.state_halted s.now id)
    refine ⟨.cancelled, fits.transfer (fun id _ started => ?_) (fun id _ idle => ?_), .inr ⟨rfl, dead⟩⟩
    · rw [state id, started]
      rcases alive with rfl | ⟨rfl, -⟩ <;> rfl
    · exact (halted id).trans (s.context.halted_of_ne idle s.now)

/-- A run that waits at the end of a step is sound when what was put off is done. -/
theorem sound_waiting {live : NodeState} {activity : Activity}
    (fits : s.context.Fits live root activity) (alive : Alive s live)
    (distinct : activity.tickets.Nodup)
    (given : ∀ ticket ∈ activity.tickets, ticket < s.world.tickets) (limit : Option TimeLimit) :
    Sound root s.flush (.active activity limit) := by
  let settled : RunState := { s with world := { s.world with openings := [] } }
  have fits : settled.context.Fits live root activity := fits
  have alive : Alive settled live := alive
  obtain ⟨live', fits', alive'⟩ := fits_applyAll fits alive s.world.openings
  refine .active fits' alive' distinct fun ticket member => ?_
  rw [s.tickets_flush]
  exact given ticket member

/-- The end of a step of which the states tell is sound. -/
theorem sound_ofProgress {limit : Option TimeLimit} {old : List Nat} {low : Nat}
    {p : RunState × Progress} (placed : p.1.context.Placed root p.2)
    (heeds : Heeds p.1.context.cancelled p.2.outcome?)
    (ticketed : Ticketed old low p.1.world.tickets p.2.tickets) :
    Sound root (ofProgress limit p).1 (ofProgress limit p).2 := by
  obtain ⟨s, progress⟩ := p
  cases progress with
  | waiting activity => exact sound_waiting placed (.inl rfl) ticketed.nodup ticketed.given limit
  | ended outcome =>
    refine .ended placed.settled fun dead => cancelled_report ?_
    rw [← dead]
    exact heeds

/-- A run whose time is up is at rest. -/
theorem sound_expire {limit : TimeLimit} (ordered : s.context.Ordered root) :
    Sound root (expire limit s).1 (expire limit s).2 :=
  .ended (ordered.halt fun id _ => s.phase_cancelExecution id) fun _ => ⟨_, rfl⟩

/-- A run that is launched is sound. -/
theorem sound_launch (untouched : s.context.Untouched root) (distinct : root.ids.Nodup) :
    Sound root (launch engine root limit s).1 (launch engine root limit s).2 :=
  sound_ofProgress (placed_start engine root s untouched distinct)
    (advances_start engine root s).heeds (ticketed_start root s)

section

variable {live : NodeState} {activity : Activity} (fits : s.context.Fits live root activity)
  (alive : Alive s live) (own : activity.tickets.Nodup)
  (given : ∀ ticket ∈ activity.tickets, ticket < s.world.tickets) (distinct : root.ids.Nodup)

include fits alive own given distinct

/-- A waiting run stays sound when a ticket is called, unless it is deaf to its cancellation. -/
theorem sound_resume_of_aware {bell : Bell} (aware : bell.Aware s.context.cancelled)
    (limit : Option TimeLimit) :
    Sound root (ofProgress limit (resume engine bell s activity)).1
      (ofProgress limit (resume engine bell s activity)).2 := by
  by_cases held : bell.ticket ∈ activity.tickets
  · exact sound_ofProgress (placed_resume fits alive aware held own distinct)
      (advances_resume fits aware held own).heeds (ticketed_resume own given)
  · rw [resume_of_notMem held]
    exact sound_waiting fits alive own given limit

/-- A waiting run stays sound when a ticket is called. -/
theorem sound_resume (limit : Option TimeLimit) (bell : Bell) :
    Sound root (ofProgress limit (resume engine bell s activity)).1
      (ofProgress limit (resume engine bell s activity)).2 := by
  by_cases aware : bell.Aware s.context.cancelled
  · exact sound_resume_of_aware fits alive own given distinct aware limit
  · obtain ⟨ticket, deaf⟩ := bell
    obtain ⟨dead, deafness⟩ := Bell.not_aware aware
    subst deafness
    have ticketed : Ticketed (activity.tickets.erase (Bell.mk ticket true).ticket) s.world.tickets
        (resume engine ⟨ticket, true⟩ s activity).1.world.tickets
        (resume engine ⟨ticket, true⟩ s activity).2.tickets := ticketed_resume own given
    have unheard := unheard_resume engine ticket fits own dead
    generalize resume engine ⟨ticket, true⟩ s activity = p at ticketed unheard
    cases unheard with
    | same => exact sound_resume_of_aware fits alive own given distinct (fun _ => rfl) limit
    | @atOnce node spec call left due effects inside =>
      have placed : (s.place engine node.id call).2.context.Fits live root activity := fits
      obtain ⟨live', fits', alive'⟩ := fits_applyAll placed alive effects
      refine sound_resume_of_aware fits' alive' own (fun ticket member => ?_) distinct
        (fun _ => rfl) limit
      rw [RunState.tickets_applyAll]
      exact given ticket member
    | @later node spec call left due bound after swaps =>
      let waiting : RunState := ((s.place engine node.id call).2.defer
        (s.place engine node.id call).1.opening).takeTicket.2
      have alive : Alive waiting live := alive
      have fits : waiting.context.Fits live root after := by
        refine fits.swaps swaps fun node inner => ?_
        cases inner with
        | pausing kind state below _ => exact .calling kind state below
      exact sound_waiting fits alive ticketed.nodup ticketed.given limit

/-- A run stays sound when it notices its cancellation. -/
theorem sound_heed (limit : Option TimeLimit) :
    Sound root (heed engine activity limit s).1 (heed engine activity limit s).2 := by
  unfold heed
  split
  · exact sound_resume fits alive own given distinct limit _
  · exact .active fits alive own given

end

/-- A run stays sound whatever comes. -/
theorem sound_step (h : Sound root s stage) (distinct : root.ids.Nodup) (stimulus : Stimulus) :
    Sound root (step engine s stage stimulus).1 (step engine s stage stimulus).2 := by
  cases h with
  | ended settled heeds => exact .ended settled heeds
  | @active activity limit live fits alive own given =>
    cases stimulus with
    | wake bell => exact sound_resume fits alive own given distinct limit bell
    | heed => exact sound_heed fits alive own given distinct limit
    | expire =>
      cases limit with
      | none => exact .active fits alive own given
      | some limit => exact sound_expire fits.ordered
    | act effects =>
      obtain ⟨live', fits', alive'⟩ := fits_applyAll fits alive effects
      exact .active fits' alive' own fun ticket member =>
        s.tickets_applyAll effects ▸ given ticket member

theorem Sound.later (h : Sound root s stage) (time : Nat) : Sound root (later s time) stage := by
  cases h with
  | active fits alive distinct given => exact .active fits alive distinct given
  | ended settled heeds => exact .ended settled heeds

/-- Every move keeps a run sound. -/
theorem Move.sound {manner : Manner} {p q : RunState × Stage} (move : Move engine manner p q)
    (h : Sound root p.1 p.2) (distinct : root.ids.Nodup) : Sound root q.1 q.2 := by
  cases move with
  | step s stage time stimulus => exact sound_step (h.later time) distinct stimulus

/-- A run that is sound stays so. -/
theorem Leads.sound {manner : Manner} {p q : RunState × Stage} (leads : Leads engine manner p q)
    (h : Sound root p.1 p.2) (distinct : root.ids.Nodup) : Sound root q.1 q.2 := by
  induction leads with
  | refl => exact h
  | tail _ move ih => exact move.sound ih distinct

/-- Every state that a run reaches is sound. -/
theorem Reaches.sound {p : RunState × Stage} (h : Reaches engine root limit s₀ p)
    (untouched : s₀.context.Untouched root) (distinct : root.ids.Nodup) : Sound root p.1 p.2 :=
  Leads.sound h (sound_launch untouched distinct) distinct

/-! ## What runs keep -/

section

variable {manner : Manner}

theorem acts_cancelExecution : Acts engine manner root.ids s s.cancelExecution :=
  .single (.affect [.cancelExecution])

/-- The end of a step does what was put off, by acts. -/
theorem acts_ofProgress (slow : manner ≠ .prompt) {limit : Option TimeLimit} {ids : List String}
    {s' : RunState} {p : RunState × Progress} (acts : Acts engine manner ids s' p.1) :
    Acts engine manner ids s' (ofProgress limit p).1 := by
  obtain ⟨s, progress⟩ := p
  cases progress with
  | ended outcome => exact acts
  | waiting activity => exact acts.trans (Acts.flush slow s)

/-- A run is launched by acts on its tree. -/
theorem acts_launch (slow : manner ≠ .prompt) :
    Acts engine manner root.ids s (launch engine root limit s).1 :=
  acts_ofProgress slow ((advances_start engine root s).acts.of_heeding slow)

/-- A waiting run goes on by acts on its tree. -/
theorem acts_resume (slow : manner ≠ .prompt) {context : Context} {live : NodeState}
    {activity : Activity} (fits : context.Fits live root activity) (own : activity.tickets.Nodup)
    (limit : Option TimeLimit) {bell : Bell}
    (heard : manner ≠ .deaf → bell.Aware s.context.cancelled) :
    Acts engine manner root.ids s (ofProgress limit (resume engine bell s activity)).1 := by
  have hearing (s : RunState) {bell : Bell} (aware : bell.Aware s.context.cancelled) :
      Acts engine manner root.ids s (ofProgress limit (resume engine bell s activity)).1 := by
    by_cases held : bell.ticket ∈ activity.tickets
    · exact acts_ofProgress slow ((advances_resume fits aware held own).acts.of_heeding slow)
    · rw [resume_of_notMem held]
      exact Acts.flush slow s
  by_cases aware : bell.Aware s.context.cancelled
  · exact hearing s aware
  · obtain ⟨ticket, deafness⟩ := bell
    obtain ⟨dead, rfl⟩ := Bell.not_aware aware
    have deaf : manner = .deaf := by
      by_contra other
      exact aware (heard other)
    have unheard := unheard_resume engine ticket fits own dead
    generalize resume engine ⟨ticket, true⟩ s activity = p at unheard
    cases unheard with
    | same => exact hearing s fun _ => rfl
    | @atOnce node spec call left due effects inside =>
      have strays : Acts engine manner root.ids s
          ((s.place engine node.id call).2.applyAll effects) :=
        .tail (.single (.stray deaf dead)) (.affect effects)
      exact strays.trans (hearing _ fun _ => rfl)
    | @later node spec call left due limit after swaps =>
      have placed : Acts engine manner root.ids s
          ((s.place engine node.id call).2.defer (s.place engine node.id call).1.opening) :=
        .tail (.single (.stray deaf dead)) (.note slow _)
      exact acts_ofProgress slow (placed.tail .wait)

theorem acts_heed (slow : manner ≠ .prompt) {context : Context} {live : NodeState}
    {activity : Activity} (fits : context.Fits live root activity) (own : activity.tickets.Nodup)
    (limit : Option TimeLimit) :
    Acts engine manner root.ids s (heed engine activity limit s).1 := by
  unfold heed
  split
  · exact acts_resume slow fits own limit fun _ _ => rfl
  · exact .refl

/-- A step of a run is done by acts on its tree. -/
theorem acts_step (slow : manner ≠ .prompt) (h : Sound root s stage) {stimulus : Stimulus}
    (heard : manner ≠ .deaf → s.context.cancelled = true → stimulus.isDeaf = false) :
    Acts engine manner root.ids s (step engine s stage stimulus).1 := by
  cases h with
  | ended => exact .refl
  | @active activity limit live fits alive own given =>
    cases stimulus with
    | wake bell => exact acts_resume slow fits own limit heard
    | heed => exact acts_heed slow fits own limit
    | expire =>
      cases limit with
      | none => exact .refl
      | some limit => exact acts_cancelExecution
    | act effects => exact .single (.affect effects)

/-- Any step of a run is done by acts of a run that may be deaf. -/
theorem acts_step_deaf (h : Sound root s stage) (stimulus : Stimulus) :
    Acts engine .deaf root.ids s (step engine s stage stimulus).1 :=
  acts_step Manner.noConfusion h fun other => absurd rfl other

/-! ## Between two steps -/

/-- At the end of a step nothing is put off any more. -/
theorem settled_ofProgress {limit : Option TimeLimit} {ids : List String} {p : RunState × Progress}
    (advance : Advances engine ids s p) (settled : s.world.openings = []) :
    (ofProgress limit p).1.world.openings = [] := by
  obtain ⟨s', progress⟩ := p
  cases progress with
  | waiting activity => exact s'.openings_flush
  | ended outcome =>
    have acts : Acts engine .prompt ids s s' := advance.does
    exact acts.openings.trans settled

/-- When a run has been launched nothing is put off any more. -/
theorem settled_launch (settled : s.world.openings = []) :
    (launch engine root limit s).1.world.openings = [] :=
  settled_ofProgress (advances_start engine root s) settled

theorem settled_resume {context : Context} {live : NodeState} {activity : Activity}
    (fits : context.Fits live root activity) (own : activity.tickets.Nodup)
    (settled : s.world.openings = []) (limit : Option TimeLimit) (bell : Bell) :
    (ofProgress limit (resume engine bell s activity)).1.world.openings = [] := by
  have hearing {s : RunState} {bell : Bell} (aware : bell.Aware s.context.cancelled)
      (settled : s.world.openings = []) :
      (ofProgress limit (resume engine bell s activity)).1.world.openings = [] := by
    by_cases held : bell.ticket ∈ activity.tickets
    · exact settled_ofProgress (advances_resume fits aware held own) settled
    · rw [resume_of_notMem held]
      exact s.openings_flush
  by_cases aware : bell.Aware s.context.cancelled
  · exact hearing aware settled
  · obtain ⟨ticket, deafness⟩ := bell
    obtain ⟨dead, rfl⟩ := Bell.not_aware aware
    have unheard := unheard_resume engine ticket fits own dead
    generalize resume engine ⟨ticket, true⟩ s activity = p at unheard
    cases unheard with
    | same => exact hearing (fun _ => rfl) settled
    | @atOnce node spec call left due effects inside =>
      exact hearing (fun _ => rfl) ((RunState.openings_applyAll ..).trans settled)
    | later => exact RunState.openings_flush _

/-- When a step is over, nothing is put off any more. -/
theorem settled_step (h : Sound root s stage) (settled : s.world.openings = [])
    (stimulus : Stimulus) : (step engine s stage stimulus).1.world.openings = [] := by
  cases h with
  | ended => exact settled
  | @active activity limit live fits alive own given =>
    cases stimulus with
    | wake bell => exact settled_resume fits own settled limit bell
    | heed =>
      simp only [step, heed]
      split
      · exact settled_resume fits own settled limit _
      · exact settled
    | expire =>
      cases limit with
      | none => exact settled
      | some limit => exact settled
    | act effects => exact (s.openings_applyAll effects).trans settled

/-- All that a move does is done by acts on the tree of the run. -/
theorem Move.acts {p q : RunState × Stage} (move : Move engine manner p q) (slow : manner ≠ .prompt)
    (h : Sound root p.1 p.2) : ∃ time, Acts engine manner root.ids (later p.1 time) q.1 := by
  cases move with
  | step s stage time stimulus heard => exact ⟨time, acts_step slow (h.later time) heard⟩

/-- A run keeps what every act on its tree and the passing of time keep. -/
theorem Reaches.invariant {p : RunState × Stage} (h : Reaches engine root limit s₀ p)
    (P : RunState → Prop) (untouched : s₀.context.Untouched root) (distinct : root.ids.Nodup)
    (initial : P s₀) (clock : ∀ s time, P s → P (Run.later s time))
    (act : ∀ s s', Act engine .deaf root.ids s s' → P s → P s') : P p.1 := by
  have keep {s s' : RunState} (acts : Acts engine .deaf root.ids s s') (holds : P s) : P s' := by
    induction acts with
    | refl => exact holds
    | tail _ next ih => exact act _ _ next ih
  induction h with
  | refl => exact keep (acts_launch Manner.noConfusion) initial
  | tail reached move ih =>
    obtain ⟨time, acts⟩ := move.acts Manner.noConfusion (Reaches.sound reached untouched distinct)
    exact keep acts (clock _ time ih)

end

/-! ## A small run -/

/-- Two tasks, one after the other. -/
def pair : Node :=
  let task (id : String) : Node := .make id (.task ⟨"work", [], [], 0, none, none⟩) []
  .make "both" .sequence [task "first", task "second"]

/-- An engine whose tasks answer after five milliseconds. -/
def slow : Engine := ⟨fun _ _ => ⟨5, [], .ok .null, []⟩, .standard⟩

/-- The state before anything ran. -/
def outset : RunState := ⟨.empty, .fresh "workflow" "execution" []⟩

/-- The second task runs once the first has its answer. -/
def halfway : RunState × Stage :=
  step slow (later (launch slow pair none outset).1 5) (launch slow pair none outset).2
    (.wake ⟨0, false⟩)

/-- The run of the pair reaches a state in which its first task has ended. -/
theorem reaches_halfway : Reaches slow pair none outset halfway :=
  .single (.any slow _ _ 5 (.wake ⟨0, false⟩))

end Stepwise.Run
