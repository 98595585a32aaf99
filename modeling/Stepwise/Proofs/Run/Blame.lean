import Stepwise.Proofs.Run.Ticket
import Stepwise.Run.Machine

/-!
# Faults of nodes

A node that does not end well ends with a fault of nodes: calls failed or took too long, or the run
was cancelled (`Fault.ofNode`). Most faults are passed on at once by the nodes around. A parallel
block may keep the first failure of a child until all have ended, so what is shown of an activity
speaks of the failures kept in it (`Activity.Owned`); starting and going on keep to it
(`owned_start` and `owned_resume`). In particular no node ends with the fault of a run whose time
limit has passed. A run that fails does so with a fault of its nodes, or because its time limit has
passed (`owned_launch` and `owned_step`).
-/

namespace Stepwise

/-- Whether a node may end with a fault. -/
def Fault.ofNode : Fault → Bool
  | .taskFailed .. | .taskTimeout .. | .retriesExhausted .. | .nodeFailed .. | .cancelled .. => true
  | _ => false

/-- A fault that a run may end with: that of a node, or that of a time limit that has passed. -/
inductive Fault.OfRun : Fault → Prop
  | node {fault : Fault} (own : fault.ofNode = true) : OfRun fault
  | late {millis : Nat} : OfRun (.workflowTimeout millis)

/-- An outcome is no fault but one that a node may end with. -/
def Owned {α : Type} : Except Fault α → Prop
  | .ok _ => True
  | .error fault => fault.ofNode = true

theorem Owned.map {α β : Type} {outcome : Except Fault α} (h : Owned outcome) (f : α → β) :
    Owned (outcome.map f) := by
  cases outcome with
  | ok value => trivial
  | error fault => exact h

/-- The failures that the parallel blocks of an activity keep are those of nodes. -/
inductive Activity.Owned : Activity → Prop
  | calling {node : Node} {spec : TaskSpec} {call : Call} {left : Nat} {reply : Reply}
      {ticket due : Nat} {limit : Option Nat} :
      Owned (.calling node spec call left reply ticket due limit)
  | pausing {node : Node} {spec : TaskSpec} {call : Call} {left ticket due : Nat} :
      Owned (.pausing node spec call left ticket due)
  | polling {node : Node} {spec : WaitSpec} {deadline : Option Nat} {ticket due : Nat} :
      Owned (.polling node spec deadline ticket due)
  | sequence {node : Node} {done : List Json} {current : Activity} {rest : List Node}
      (inner : Owned current) : Owned (.sequence node done current rest)
  | branch {node : Node} {current : Activity} (inner : Owned current) :
      Owned (.branch node current)
  | loop {node : Node} {spec : LoopSpec} {remaining : Nat} {finished done : List Json}
      {current : Activity} {rest : List Node} (inner : Owned current) :
      Owned (.loop node spec remaining finished done current rest)
  | parallel {node : Node} {spec : ParallelSpec} {lanes : List (Lane Activity)} {queue : List Node}
      {door : Option Nat} {firstError : Option Fault}
      (inner : ∀ child activity, .running child activity ∈ lanes → Owned activity)
      (first : ∀ fault ∈ firstError, fault.ofNode = true) :
      Owned (.parallel node spec lanes queue door firstError)

/-- What a node has come to is no fault but one of a node, and will not be. -/
def Progress.Owned : Progress → Prop
  | .ended outcome => Stepwise.Owned outcome
  | .waiting activity => activity.Owned

/-- Likewise for steps in turn. -/
def Course.Owned : Course → Prop
  | .ended outcome => Stepwise.Owned outcome
  | .waiting _ current _ => current.Owned

namespace Run

variable {engine : Engine} {s : RunState} {node : Node} {bell : Bell}

theorem owned_close {p : RunState × Progress} (h : p.2.Owned) : (close node p).2.Owned := by
  obtain ⟨s', progress⟩ := p
  cases progress <;> exact h

/-! ## Starting -/

/-- A task whose last attempt failed tells so, or passes on the fault of its one attempt. -/
theorem ofNode_exhausted {spec : TaskSpec} {fault : Fault} (h : fault.ofNode = true) :
    (exhausted node spec fault).ofNode = true := by
  unfold exhausted
  split
  · exact h
  · rfl

/-- A task that is over fails with a fault of its own. -/
theorem owned_settle {spec : TaskSpec} {call : Call} {left : Nat}
    {again : RunState → RunState × Progress} {outcome : Except Fault Json}
    (next : ∀ s, (again s).2.Owned) (h : Owned outcome) :
    (settle engine node spec call left again s outcome).2.Owned := by
  unfold settle
  split
  · rfl
  · cases outcome with
    | ok value => trivial
    | error fault =>
      dsimp only
      split
      · exact ofNode_exhausted h
      · split
        · exact next _
        · exact .pausing

/-- An answer fails with a fault of the task that was called. -/
theorem owned_outcomeOf (spec : TaskSpec) (reply : Reply) : Owned (outcomeOf spec reply) := by
  unfold outcomeOf
  cases reply.outcome with
  | ok value => trivial
  | error text => rfl

/-- However often a task is called, it fails with a fault of its own. -/
theorem owned_attempt (spec : TaskSpec) (call : Call) (left : Nat) :
    ∀ s : RunState, (attempt engine node spec call left s).2.Owned := by
  induction left with
  | zero => exact fun _ => rfl
  | succ left ih =>
    intro s
    simp only [attempt]
    split
    · exact owned_settle ih (owned_outcomeOf spec _)
    · split
      · exact owned_settle ih rfl
      · exact .calling

theorem owned_poll (spec : WaitSpec) (deadline : Option Nat) :
    (poll engine node spec deadline s).2.Owned := by
  unfold poll
  split
  · rfl
  · split
    · trivial
    · dsimp only
      split
      · trivial
      · exact .polling

theorem owned_asSequence {p : RunState × Course} (h : p.2.Owned) :
    (asSequence node p).2.Owned := by
  obtain ⟨s', course⟩ := p
  cases course with
  | ended outcome => exact Owned.map h _
  | waiting done current rest => exact .sequence h

theorem owned_asBranch {p : RunState × Progress} (h : p.2.Owned) : (asBranch node p).2.Owned := by
  obtain ⟨s', progress⟩ := p
  cases progress with
  | ended outcome => exact h
  | waiting current => exact .branch h

section

variable {nodes : List Node}

/-- Steps in turn fail with the fault of one of them. -/
theorem owned_startAll (each : ∀ node ∈ nodes, ∀ s, (start engine s node).2.Owned)
    (done : List Json) : ∀ s : RunState, (startAll engine done s nodes).2.Owned := by
  induction nodes generalizing done with
  | nil =>
    intro s
    rw [startAll]
    trivial
  | cons node rest ih =>
    intro s
    have first := each node List.mem_cons_self s
    rw [startAll]
    generalize start engine s node = p at first
    obtain ⟨s', progress⟩ := p
    cases progress with
    | waiting current => exact first
    | ended outcome =>
      cases outcome with
      | error fault => exact first
      | ok value => exact ih (fun n member => each n (List.mem_cons_of_mem _ member)) _ s'

theorem owned_startBranch (each : ∀ node ∈ nodes, ∀ s, (start engine s node).2.Owned)
    (side : Branch) : (startBranch engine side s nodes).2.Owned := by
  induction nodes with
  | nil =>
    rw [startBranch]
    trivial
  | cons node rest ih =>
    rw [startBranch]
    split
    · exact each node List.mem_cons_self s
    · exact ih fun n member => each n (List.mem_cons_of_mem _ member)

end

/-- A loop that ends with its round does not fail, or it is cancelled with it. -/
theorem owned_afterRound (spec : LoopSpec) (finished : List Json)
    {outcome : Except Fault (List Json)} (h : Owned outcome) {last : Except Fault Json}
    (ends : afterRound spec finished outcome = .inl last) : Owned last := by
  cases outcome with
  | ok values => cases ends
  | error fault =>
    simp only [afterRound] at ends
    split at ends
    · cases ends
      exact h
    · split at ends
      · cases ends
        trivial
      · cases ends

/-- A loop fails with a fault from its body. -/
theorem owned_rounds {spec : LoopSpec} {body : RunState → RunState × Course}
    (round : ∀ s, (body s).2.Owned) (remaining : Nat) :
    ∀ (first : Bool) (finished : List Json) (s : RunState),
      (rounds node spec body remaining first finished s).2.Owned := by
  induction remaining with
  | zero => exact fun _ _ _ => trivial
  | succ remaining ih =>
    intro first finished s
    rw [rounds]
    split
    · rfl
    · split
      · trivial
      · have done := round (if first then s else s.rearm node.children)
        generalize body (if first then s else s.rearm node.children) = p at done
        obtain ⟨s', course⟩ := p
        cases course with
        | waiting done' current rest => exact .loop done
        | ended outcome =>
          dsimp only
          split
          · next last ends => exact owned_afterRound spec finished done ends
          · exact ih false _ s'

/-- A block is stopped with the fault of a child, or keeps it. -/
theorem owned_judge (spec : ParallelSpec) {firstError : Option Fault} (child : Node)
    {outcome : Except Fault Json} (first : ∀ fault ∈ firstError, fault.ofNode = true)
    (h : Owned outcome) :
    match judge spec firstError child outcome with
    | .goOn _ firstError => ∀ fault ∈ firstError, fault.ofNode = true
    | .stop outcome => Owned outcome := by
  cases outcome with
  | ok value =>
    simp only [judge]
    cases spec.waitForAll with
    | true => exact first
    | false => trivial
  | error fault =>
    simp only [judge]
    by_cases stops : (fault.isCancelled || (spec.failFast && spec.waitForAll)) = true
    · rw [if_pos stops]
      exact h
    · rw [if_neg stops]
      -- Only the first failure is kept.
      cases firstError with
      | some earlier => exact first
      | none =>
        rintro _ ⟨⟩
        exact h

/-- A block that has waited for all fails with the first fault of a child. -/
theorem owned_conclude (spec : ParallelSpec) (lanes : List (Lane Activity))
    {firstError : Option Fault} (first : ∀ fault ∈ firstError, fault.ofNode = true) :
    Owned (conclude spec lanes firstError) := by
  unfold conclude
  split
  · split
    · exact first _ rfl
    · trivial
  · trivial

/-- The activities in some lanes keep no failures but those of nodes. -/
abbrev LanesOwned (lanes : List (Lane Activity)) : Prop :=
  ∀ child activity, .running child activity ∈ lanes → activity.Owned

/-- A block that goes on keeps the first fault of a child. -/
theorem owned_carryOn {block : Node} {spec : ParallelSpec} {limit : Nat}
    {lanes : List (Lane Activity)} {firstError : Option Fault} (owned : LanesOwned lanes)
    (kept : ∀ fault ∈ firstError, fault.ofNode = true) (s : RunState) (queue : List Node) :
    (carryOn block spec limit lanes firstError s queue).2.Owned := by
  cases queue with
  | nil =>
    rw [carryOn]
    split
    · exact .parallel owned kept
    · exact owned_conclude spec lanes kept
  | cons child rest =>
    rw [carryOn]
    split
    · exact .parallel owned kept
    · exact .parallel owned kept

/-- A block that stops after a child fails with its fault. -/
theorem owned_afterChild {block : Node} {spec : ParallelSpec} {limit : Nat} {queue : List Node}
    {before after : List (Lane Activity)} {child : Node} {firstError : Option Fault}
    {outcome : Except Fault Json} (hbefore : LanesOwned before) (hafter : LanesOwned after)
    (kept : ∀ fault ∈ firstError, fault.ofNode = true) (h : Owned outcome) (s : RunState) :
    (afterChild block spec limit queue firstError s before child outcome after).2.Owned := by
  have judged := owned_judge spec child kept h
  unfold afterChild
  generalize judge spec firstError child outcome = verdict at judged
  cases verdict with
  | goOn slot firstError =>
    exact owned_carryOn (Lane.forall_running_append
      (Lane.forall_running_append hbefore (Lane.forall_running_ended _ _)) hafter) judged s queue
  | stop outcome => exact Owned.map judged _

/-- A node that starts ends with no fault but one of a node. -/
theorem owned_start (engine : Engine) (node : Node) (s : RunState) :
    (start engine s node).2.Owned := by
  induction node using Node.induction generalizing s with
  | step node ih =>
    rw [start_eq]
    split
    · rfl
    · refine owned_close ?_
      unfold work
      split
      · exact owned_attempt _ _ _ _
      · exact owned_asSequence (owned_startAll ih [] _)
      · refine owned_carryOn (fun _ _ member => absurd member List.not_mem_nil) ?_ _ _
        exact nofun
      · exact owned_asBranch (owned_startBranch ih _)
      · exact owned_rounds (owned_startAll ih []) _ true [] _
      · exact owned_poll _ _

/-! ## Going on -/

theorem owned_andThen {done : List Json} {rest : List Node} {p : RunState × Progress}
    (h : p.2.Owned) : (andThen engine done rest p).2.Owned := by
  obtain ⟨s', progress⟩ := p
  cases progress with
  | waiting current => exact h
  | ended outcome =>
    cases outcome with
    | error fault => exact h
    | ok value => exact owned_startAll (fun n _ => owned_start engine n) _ s'

theorem owned_goOnLoop {spec : LoopSpec} {remaining : Nat} {finished : List Json}
    {p : RunState × Course} (h : p.2.Owned) :
    (goOnLoop engine node spec remaining finished p).2.Owned := by
  obtain ⟨s', course⟩ := p
  cases course with
  | waiting done current rest => exact .loop h
  | ended outcome =>
    simp only [goOnLoop]
    split
    · next last ends => exact owned_afterRound spec finished h ends
    · exact owned_rounds (owned_startAll (fun n _ => owned_start engine n) []) _ _ _ s'

/-- Likewise for lanes of which one may have come to an end. -/
def LaneChange.Owned : LaneChange → Prop
  | .none lanes => LanesOwned lanes
  | .ended before _ outcome after =>
    LanesOwned before ∧ Stepwise.Owned outcome ∧ LanesOwned after

theorem LaneChange.Owned.cons {change : LaneChange} (h : change.Owned) {lane : Lane Activity}
    (owned : LanesOwned [lane]) : (change.cons lane).Owned := by
  cases change with
  | none lanes => exact Lane.forall_running_append owned h
  | ended before child outcome after => exact ⟨Lane.forall_running_append owned h.1, h.2⟩

theorem owned_goOnLanes {spec : ParallelSpec} {limit : Nat} {queue : List Node}
    {door : Option Nat} {firstError : Option Fault} {p : RunState × LaneChange} (h : p.2.Owned)
    (kept : ∀ fault ∈ firstError, fault.ofNode = true) :
    (goOnLanes node spec limit queue door firstError p).2.Owned := by
  obtain ⟨s', change⟩ := p
  cases change with
  | none lanes => exact .parallel h kept
  | ended before child outcome after => exact owned_afterChild h.1 h.2.2 kept h.2.1 s'

/-- A child that starts in its turn fails with a fault of its own. -/
theorem owned_enter {spec : ParallelSpec} {limit : Nat} {lanes : List (Lane Activity)}
    {firstError : Option Fault} (owned : LanesOwned lanes)
    (kept : ∀ fault ∈ firstError, fault.ofNode = true) (s : RunState) (queue : List Node) :
    (enter engine node spec limit lanes firstError s queue).2.Owned := by
  cases queue with
  | nil => exact .parallel owned kept
  | cons child rest =>
    have first := owned_start engine child s
    rw [enter]
    generalize start engine s child = p at first
    obtain ⟨s', progress⟩ := p
    cases progress with
    | waiting activity =>
      exact owned_carryOn
        (Lane.forall_running_append owned (Lane.forall_running_singleton first)) kept s' rest
    | ended outcome =>
      exact owned_afterChild owned (fun _ _ member => absurd member List.not_mem_nil) kept first s'

theorem owned_resumeLanes {lanes : List (Lane Activity)}
    (each : ∀ child activity, .running child activity ∈ lanes → activity.Owned →
      ∀ s : RunState, (resume engine bell s activity).2.Owned)
    (owned : LanesOwned lanes) : (resumeLanes engine bell s lanes).2.Owned := by
  induction lanes generalizing s with
  | nil => exact owned
  | cons lane rest ih =>
    have others : LanesOwned rest := fun child activity member =>
      owned child activity (List.mem_cons_of_mem _ member)
    have ih (s : RunState) := ih (s := s)
      (fun child activity member => each child activity (List.mem_cons_of_mem _ member)) others
    rw [resumeLanes]
    cases lane with
    | ended child slot => exact (ih s).cons (Lane.forall_running_ended _ _)
    | running child activity =>
      have own := owned child activity List.mem_cons_self
      have first := each child activity List.mem_cons_self own s
      rw [resumeLane]
      generalize resume engine bell s activity = p at first
      obtain ⟨s', progress⟩ := p
      cases progress with
      | ended outcome =>
        exact ⟨fun _ _ member => absurd member List.not_mem_nil, first, others⟩
      | waiting activity => exact (ih s').cons (Lane.forall_running_singleton first)

/-- An activity that goes on ends with no fault but one of a node. -/
theorem owned_resume {activity : Activity} (h : activity.Owned) (s : RunState) :
    (resume engine bell s activity).2.Owned := by
  induction activity using Activity.induction generalizing s with
  | calling node spec call left reply ticket due limit =>
    rw [resume]
    split
    · refine owned_close ?_
      unfold answered
      dsimp only
      split
      · exact owned_settle (owned_attempt _ _ _) rfl
      · exact owned_settle (owned_attempt _ _ _) (owned_outcomeOf spec reply)
    · exact .calling
  | pausing node spec call left ticket due =>
    rw [resume]
    split
    · refine owned_close ?_
      unfold rested
      split
      · rfl
      · exact owned_attempt _ _ _ _
    · exact .pausing
  | polling node spec deadline ticket due =>
    rw [resume]
    split
    · exact owned_close (owned_poll _ _)
    · exact .polling
  | sequence node done current rest ih =>
    cases h with
    | sequence inner =>
      rw [resume]
      exact owned_close (owned_asSequence (owned_andThen (ih inner s)))
  | branch node current ih =>
    cases h with
    | branch inner =>
      rw [resume]
      exact owned_close (owned_asBranch (ih inner s))
  | loop node spec remaining finished done current rest ih =>
    cases h with
    | loop inner =>
      rw [resume]
      exact owned_close (owned_goOnLoop (owned_andThen (ih inner s)))
  | parallel node spec lanes queue door firstError ih =>
    cases h with
    | parallel inner first =>
      rw [resume]
      refine owned_close ?_
      split
      · exact owned_enter inner first s queue
      · exact owned_goOnLanes (owned_resumeLanes ih inner) first

/-! ## Runs -/

/-- A run ends with no other fault, and has not kept any. -/
def Stage.Owned : Stage → Prop
  | .active activity _ => activity.Owned
  | .ended outcome => ∀ fault, outcome = .error fault → fault.OfRun

/-- A run fails with a fault of a node in its tree. -/
theorem owned_ofProgress {limit : Option TimeLimit} {p : RunState × Progress} (h : p.2.Owned) :
    (ofProgress limit p).2.Owned := by
  obtain ⟨s', progress⟩ := p
  cases progress with
  | waiting activity => exact h
  | ended outcome =>
    intro fault failed
    cases outcome with
    | ok value => cases failed
    | error cause =>
      rw [report] at failed
      split at failed
      · cases failed
      · cases failed
        exact .node h

theorem owned_expire (limit : TimeLimit) (s : RunState) : (expire limit s).2.Owned := by
  intro fault failed
  cases failed
  exact .late

/-- What a run comes to at once fails with a fault of a node in its tree. -/
theorem owned_launch (engine : Engine) (root : Node) (limit : Option Duration) (s : RunState) :
    (launch engine root limit s).2.Owned :=
  owned_ofProgress (owned_start engine root s)

theorem owned_heed {activity : Activity} {limit : Option TimeLimit} (h : activity.Owned)
    (s : RunState) : (heed engine activity limit s).2.Owned := by
  unfold heed
  split
  · exact owned_ofProgress (owned_resume h s)
  · exact h

/-- Whatever comes to a run, it fails with the fault of a node or of its time limit, if at all. -/
theorem owned_step {stage : Stage} (h : stage.Owned) (s : RunState) (stimulus : Stimulus) :
    (step engine s stage stimulus).2.Owned := by
  unfold step
  split
  · exact h
  · exact owned_ofProgress (owned_resume h s)
  · exact owned_heed h s
  · exact owned_expire _ _
  · exact h
  · exact h

end Run

end Stepwise
