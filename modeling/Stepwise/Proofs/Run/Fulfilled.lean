import Stepwise.Proofs.Run.Foretold
import Stepwise.Proofs.Run.Schedule

/-!
# Forecasts come true

An activity of a patient tree that is on its way to what is foretold stays so whichever ticket is
called (`comes_resume`), and in a parallel block it does not matter in which lane. So every state
that the run of such a tree reaches is as foretold, unless it is cancelled, whatever comes when
(`keeps_of_reaches`).
-/

namespace Stepwise

namespace Forecast

open Run

variable {answer : Call → Except String Json} {origin : Standings} {engine : Engine} {node : Node}
  {s s' : RunState} {bell : Bell}

/-! ## Lanes -/

/-- What the lanes of a block have come to is foretold: they hold the same children as before. -/
def Shifted (answer : Call → Except String Json) (origin now : Standings)
    (lanes : List (Lane Activity)) : LaneChange → Prop
  | .none lanes' => lanes'.map Lane.child = lanes.map Lane.child ∧
      lanes'.map Lane.isRunning = lanes.map Lane.isRunning ∧
      ∀ lane ∈ lanes', InLane answer origin now lane
  | .ended before child outcome after =>
      lanes.map Lane.child = before.map Lane.child ++ child :: after.map Lane.child ∧
      (∀ lane ∈ before ++ after, InLane answer origin now lane) ∧
      outcome = child.verdict answer ∧ Left answer origin now child

/-- From one state the lanes of a block come to what is foretold, and nodes outside their trees are
left alone. -/
abbrev Shifts (answer : Call → Except String Json) (origin : Standings)
    (lanes : List (Lane Activity)) : RunState → RunState × LaneChange → Prop :=
  Onward (fun now => Shifted answer origin now lanes) (Node.idsAll (lanes.map Lane.child))

/-- A lane in front of others that has gone on itself first. -/
theorem shifts_cons {lane lane' : Lane Activity} {rest : List (Lane Activity)}
    {p : RunState × LaneChange} (h : Shifts answer origin rest s' p)
    (child : lane'.child = lane.child)
    (running : lane'.isRunning = lane.isRunning)
    (inLane : InLane answer origin s'.context.standing lane')
    (within : Within lane.child.ids s s')
    (apart : lane.child.ids.Disjoint (Node.idsAll (rest.map Lane.child))) :
    Shifts answer origin (lane :: rest) s (p.1, p.2.cons lane') := by
  obtain ⟨s'', change⟩ := p
  have kept : InLane answer origin s''.context.standing lane' := by
    apply inLane.keep
    intro id member
    exact h.within.apart id (apart (child ▸ member))
  have total : Within (Node.idsAll ((lane :: rest).map Lane.child)) s s'' := by
    rw [List.map_cons, Node.idsAll_cons]
    exact (within.mono (List.subset_append_left _ _)).trans
      (h.within.mono (List.subset_append_right _ _))
  cases change with
  | none lanes =>
    obtain ⟨children, busy, inLanes⟩ := h.told
    refine ⟨⟨?_, ?_, List.forall_mem_cons.2 ⟨kept, inLanes⟩⟩, total⟩
    · rw [List.map_cons, List.map_cons, child, children]
    · rw [List.map_cons, List.map_cons, running, busy]
  | ended before ended outcome after =>
    obtain ⟨children, inLanes, told⟩ := h.told
    refine ⟨⟨?_, List.forall_mem_cons.2 ⟨kept, inLanes⟩, told⟩, total⟩
    rw [List.map_cons, List.map_cons, child, children, List.cons_append]

/-- The lanes of a block shift as foretold when a wait inside one of them is over. -/
theorem shifts_resumeLanes {lanes : List (Lane Activity)}
    (each : ∀ child activity, .running child activity ∈ lanes → ∀ s : RunState,
      Underway answer origin s.context.standing child activity →
      (resume engine bell s activity).1.context.cancelled = false →
      Comes answer origin child s (resume engine bell s activity))
    (distinct : (Node.idsAll (lanes.map Lane.child)).Nodup) {s : RunState}
    (inLanes : ∀ lane ∈ lanes, InLane answer origin s.context.standing lane)
    (live : (resumeLanes engine bell s lanes).1.context.cancelled = false) :
    Shifts answer origin lanes s (resumeLanes engine bell s lanes) := by
  induction lanes generalizing s with
  | nil => exact ⟨⟨rfl, rfl, nofun⟩, .refl s⟩
  | cons lane rest ih =>
    have ih {s : RunState} := ih (s := s)
      (fun child activity member => each child activity (List.mem_cons_of_mem _ member))
      (Node.nodup_of_cons distinct).2
    have apart := Node.disjoint_of_cons distinct
    rw [List.forall_mem_cons] at inLanes
    obtain ⟨inLane, inRest⟩ := inLanes
    rw [resumeLanes] at live ⊢
    cases lane with
    | ended child slot => exact shifts_cons (ih inRest live) rfl rfl inLane (.refl s) apart
    | running child activity =>
      have first := each child activity List.mem_cons_self s inLane
      rw [resumeLane] at live ⊢
      generalize resume engine bell s activity = p at live first ⊢
      obtain ⟨s', progress⟩ := p
      -- The lanes behind are not touched when the activity goes on.
      have inRest' (within : Within child.ids s s') :
          ∀ lane ∈ rest, InLane answer origin s'.context.standing lane := by
        intro lane member
        apply (inRest lane member).keep
        intro id inside
        refine within.apart id fun own => apart own ?_
        exact Node.idsAll_subset (List.mem_map_of_mem member) inside
      cases progress with
      | ended outcome =>
        have first := first live
        refine ⟨⟨rfl, inRest' first.within, first.told⟩, first.within.mono ?_⟩
        exact List.subset_append_left _ _
      | waiting activity' =>
        have first := first (alive_of
          (dead_resumeLanes fun child activity _ s dead => dead_resume activity dead) live)
        exact shifts_cons (ih (inRest' first.within) live) rfl rfl first.told first.within apart

section

variable {spec : ParallelSpec} (kind : node.kind = .parallel spec) (waits : spec.waitForAll = true)
  (slow : spec.failFast = false) (distinct : node.ids.Nodup) {limit : Nat} (positive : 0 < limit)
  {lanes : List (Lane Activity)} {queue : List Node}
  (block : InBlock answer origin s.context.standing node lanes queue)

include kind waits slow distinct positive block

/-- A block goes on as foretold when one of its lanes has. -/
theorem works_goOnLanes {door : Option Nat} (entry : door.isSome = true → queue ≠ [])
    (busy : door.isSome = true ∨ ∃ child activity, .running child activity ∈ lanes)
    (firstError : Option Fault) {p : RunState × LaneChange} (h : Shifts answer origin lanes s p) :
    Works answer origin node s (goOnLanes node spec limit queue door firstError p) := by
  have children := block.children
  have distinctChildren := Node.nodup_children distinct
  have inside : Node.idsAll (lanes.map Lane.child) ⊆ Node.idsAll node.children := by
    rw [children, Node.idsAll_append]
    exact List.subset_append_left _ _
  have within : Within node.ids s p.1 :=
    h.within.mono (List.Subset.trans inside (Node.idsAll_children_subset node))
  have own : p.1.context.standing node.id = (origin node.id).begin :=
    (h.within.apart _ fun member => Node.id_notMem_children distinct (inside member)).trans block.own
  have waiting : Idle origin p.1.context.standing queue := by
    apply block.waiting.keep
    intro id member
    refine h.within.apart id fun other => ?_
    rw [children, Node.idsAll_append] at distinctChildren
    exact List.disjoint_of_nodup_append distinctChildren other member
  obtain ⟨s', change⟩ := p
  cases change with
  | none lanes' =>
    obtain ⟨same, running, inLanes⟩ := h.told
    have busy : door.isSome = true ∨ ∃ lane ∈ lanes', Lane.isRunning lane = true := by
      refine busy.imp_right fun ⟨child, activity, member⟩ => ?_
      apply List.mem_map.1
      rw [running]
      exact List.mem_map.2 ⟨_, member, rfl⟩
    have block' : InBlock answer origin s'.context.standing node lanes' queue :=
      ⟨own, same ▸ children, inLanes, waiting⟩
    exact ⟨block'.underway kind entry busy firstError, within⟩
  | ended before child outcome after =>
    obtain ⟨same, inLanes, verdict, left⟩ := h.told
    subst verdict
    have beside : Beside answer origin s'.context.standing node (before ++ after) queue :=
      ⟨own, inLanes, waiting⟩
    have split : node.children = before.map Lane.child ++ child :: after.map Lane.child ++ queue := by
      rw [children, same]
    exact (works_afterChild kind waits slow distinct positive split beside left).after within

/-- The next child of a patient block starts. -/
theorem works_enter (each : ∀ child ∈ queue, Starts answer origin engine child)
    (busy : queue ≠ []) (firstError : Option Fault)
    (live : (enter engine node spec limit lanes firstError s queue).1.context.cancelled = false) :
    Works answer origin node s (enter engine node spec limit lanes firstError s queue) := by
  cases queue with
  | nil => exact absurd rfl busy
  | cons child rest =>
    have member : child ∈ node.children := by
      rw [block.children]
      exact List.mem_append_right _ List.mem_cons_self
    have children := children_of_front block.children
    have beside : Beside answer origin s.context.standing node (lanes ++ []) rest := by
      refine ⟨block.own, ?_, block.waiting.tail⟩
      rw [List.append_nil]
      exact block.inLanes
    have starts := each child List.mem_cons_self s block.waiting.head
    rw [enter] at live ⊢
    generalize start engine s child = p at live starts ⊢
    obtain ⟨s', progress⟩ := p
    cases progress with
    | waiting activity =>
      have first := starts (alive_of (fun dead => dead_carryOn dead rest) live)
      have within : Within node.ids s s' := first.within.mono (Node.ids_child_subset member)
      have beside' := beside.keep distinct children first.within
      have entered : InBlock answer origin s'.context.standing node
          (lanes ++ [.running child activity]) rest := beside'.inBlock children rfl first.told
      exact (works_carryOn kind slow distinct positive entered).after within
    | ended outcome =>
      have first := starts (alive_of (fun dead => dead_afterChild dead) live)
      obtain ⟨verdict, left⟩ := first.told
      subst verdict
      have within : Within node.ids s s' := first.within.mono (Node.ids_child_subset member)
      have beside' := beside.keep distinct children first.within
      exact (works_afterChild kind waits slow distinct positive children beside' left).after within

end

/-! ## Activities -/

/-- A patient task that has rested is tried again unless its run is cancelled. -/
theorem works_rested (answers : engine.executor.Answers answer) {spec : TaskSpec}
    (patience : spec.timeout = none) {left : Nat} {deaf : Bool}
    (trying : Trying answer origin s.context.standing node spec (left + 1))
    (live : (rested engine node spec spec.call (left + 1) deaf s).1.context.cancelled = false) :
    Works answer origin node s (rested engine node spec spec.call (left + 1) deaf s) := by
  have alive : s.context.cancelled = false := alive_of dead_rested live
  have awake : ¬(s.context.cancelled && !deaf) = true := by
    rw [alive]
    exact Bool.false_ne_true
  rw [rested, if_neg awake] at live ⊢
  exact works_attempt answers patience _ s trying (Nat.succ_pos _) live

/-- An activity of a patient node that goes on comes to what is foretold, unless the run is
cancelled. -/
theorem comes_resume (answers : engine.executor.Answers answer) (activity : Activity)
    (patient : node.Patient) (distinct : node.ids.Nodup)
    (underway : Underway answer origin s.context.standing node activity)
    (live : (resume engine bell s activity).1.context.cancelled = false) :
    Comes answer origin node s (resume engine bell s activity) := by
  have starts {node : Node} (patient : node.Patient) (distinct : (Node.idsAll node.children).Nodup) :
      ∀ child ∈ node.children, Starts answer origin engine child := fun child member =>
    comes_start answers child (patient.child member) (Node.nodup_ids_of_mem distinct member)
  induction activity using Activity.induction generalizing node s with
  | calling node spec call left reply ticket due limit =>
    rw [resume] at live ⊢
    cases underway with
    | calling trying given =>
      have bides := patient node node.mem_preorder_self
      rw [Node.Bides, trying.kind] at bides
      split at live
      · next called =>
        rw [if_pos called]
        have live := alive_of dead_close live
        simp only [answered, Option.any_none, Bool.false_eq_true, if_false] at live ⊢
        exact comes_close (works_reply (works_attempt answers bides.1 left) trying given _ live)
      · next other =>
        rw [if_neg other]
        exact ⟨.calling trying given, .refl s⟩
  | pausing node spec call left ticket due =>
    rw [resume] at live ⊢
    cases underway with
    | pausing trying =>
      have bides := patient node node.mem_preorder_self
      rw [Node.Bides, trying.kind] at bides
      split at live
      · next called =>
        rw [if_pos called]
        exact comes_close (works_rested answers bides.1 trying (alive_of dead_close live))
      · next other =>
        rw [if_neg other]
        exact ⟨.pausing trying, .refl s⟩
  | sequence node done current rest ih =>
    rw [resume] at live ⊢
    cases underway with
    | @sequence _ child _ _ before _ kind own children past behind present future =>
      have distinctChildren := Node.nodup_children distinct
      have member : child ∈ node.children := by
        rw [children]
        exact List.mem_append_right _ List.mem_cons_self
      have live := alive_of dead_asSequence (alive_of dead_close live)
      have first := ih (patient.child member) (Node.nodup_ids_of_mem distinctChildren member)
        present (alive_of dead_andThen live)
      have each := starts patient distinctChildren
      rw [children] at distinctChildren each
      have passes : Passes answer origin node.children s
          (andThen engine done rest (resume engine bell s current)) := by
        rw [children]
        refine passes_andThen distinctChildren past behind future first ?_ live
        intro value s' past behind idle live
        refine passes_startAll (fun n inRest => each n ?_) _ ?_ past behind idle live
        · exact List.mem_append_right _ (List.mem_cons_of_mem _ inRest)
        · rw [← List.append_cons]
          exact distinctChildren
      exact comes_close (works_asSequence kind distinct own passes)
  | parallel node spec lanes queue door firstError ih =>
    rw [resume] at live ⊢
    cases underway with
    | parallel kind own children running ended waiting entry busy =>
      have bides := patient node node.mem_preorder_self
      rw [Node.Bides, kind] at bides
      have distinctChildren := Node.nodup_children distinct
      have inLanes : ∀ lane ∈ lanes, InLane answer origin s.context.standing lane := by
        intro lane member
        cases lane with
        | running child activity => exact running child activity member
        | ended child slot => exact ended child slot member
      have block : InBlock answer origin s.context.standing node lanes queue :=
        ⟨own, children, inLanes, waiting⟩
      have live := alive_of dead_close live
      have each := starts patient distinctChildren
      refine comes_close ?_
      split at live
      · next opens =>
        rw [if_pos opens]
        have queued : ∀ child ∈ queue, child ∈ node.children := by
          intro child member
          rw [children]
          exact List.mem_append_right _ member
        exact works_enter kind bides.1 bides.2 distinct (laneLimit_pos ..) block
          (fun child member => each child (queued child member)) (entry (opens ▸ rfl)) firstError live
      · next closed =>
        rw [if_neg closed]
        refine works_goOnLanes kind bides.1 bides.2 distinct (laneLimit_pos ..) block entry busy
          firstError ?_
        refine shifts_resumeLanes (fun child activity member s present live => ?_) ?_ inLanes
          (alive_of dead_goOnLanes live)
        · have inside : child ∈ node.children := by
            rw [children]
            exact List.mem_append_left _ (List.mem_map.2 ⟨_, member, rfl⟩)
          exact ih child activity member (patient.child inside)
            (Node.nodup_ids_of_mem distinctChildren inside) present live
        · rw [children, Node.idsAll_append] at distinctChildren
          exact distinctChildren.of_append_left
  | polling | branch | loop => cases underway

/-! ## Runs -/

/-- What a run of a tree has come to is foretold. -/
def Foretold (answer : Call → Except String Json) (origin : Standings) (root : Node)
    (s : RunState) :
    Stage → Prop
  | .active activity _ => Underway answer origin s.context.standing root activity
  | .ended outcome => outcome = report s (root.verdict answer) ∧
      Left answer origin s.context.standing root

/-- A run that set out from a state has come to what is foretold, and has left all nodes outside its
tree alone. -/
structure Keeps (answer : Call → Except String Json) (root : Node) (s₀ : RunState)
    (p : RunState × Stage) : Prop where
  foretold : Foretold answer s₀.context.standing root p.1 p.2
  within : Within root.ids s₀ p.1

variable {root : Node} {s₀ : RunState} {limit : Option Duration}

/-- What was put off makes no difference unless it cancels the run. -/
theorem within_flush (live : s.flush.context.cancelled = false) : Within [] s s.flush := by
  let settled : RunState := { s with world := { s.world with openings := [] } }
  have emptied : Within [] s settled := .of_eq rfl
  exact emptied.trans (.applyAll live)

/-- An activity stays on its way when nothing but variables changes. -/
theorem Underway.within {activity : Activity} (within : Within [] s s')
    (h : Underway answer origin s.context.standing node activity) :
    Underway answer origin s'.context.standing node activity :=
  h.keep fun id _ => within.apart id List.not_mem_nil

/-- The end of a step keeps to what is foretold. -/
theorem keeps_ofProgress {timeLimit : Option TimeLimit} {p : RunState × Progress}
    (within : Within root.ids s₀ s)
    (h : p.1.context.cancelled = false → Comes answer s₀.context.standing root s p)
    (live : (ofProgress timeLimit p).1.context.cancelled = false) :
    Keeps answer root s₀ (ofProgress timeLimit p) := by
  have comes := h (alive_of dead_ofProgress live)
  obtain ⟨s', progress⟩ := p
  cases progress with
  | waiting activity =>
    have quiet := within_flush live
    refine ⟨Underway.within quiet comes.told, within.trans (comes.within.trans ?_)⟩
    exact quiet.mono (List.nil_subset _)
  | ended outcome =>
    obtain ⟨rfl, left⟩ := comes.told
    exact ⟨⟨rfl, left⟩, within.trans comes.within⟩

/-- A run that is launched keeps to what is foretold. -/
theorem keeps_launch (answers : engine.executor.Answers answer) (patient : root.Patient)
    (distinct : root.ids.Nodup)
    (live : (launch engine root limit s₀).1.context.cancelled = false) :
    Keeps answer root s₀ (launch engine root limit s₀) :=
  keeps_ofProgress (.refl s₀) (comes_start answers root patient distinct s₀ fun _ _ => rfl) live

theorem Keeps.later {p : RunState × Stage} (h : Keeps answer root s₀ p) (time : Nat) :
    Keeps answer root s₀ (later p.1 time, p.2) := by
  obtain ⟨s, stage⟩ := p
  refine ⟨?_, h.within.trans (.of_eq rfl)⟩
  have foretold := h.foretold
  cases stage with
  | active activity limit => exact foretold
  | ended outcome =>
    obtain ⟨same, left⟩ := foretold
    refine ⟨same.trans ?_, left⟩
    cases root.verdict answer <;> rfl

/-- Every step of a run that is not cancelled keeps to what is foretold. -/
theorem keeps_step (answers : engine.executor.Answers answer) (patient : root.Patient)
    (distinct : root.ids.Nodup) {stage : Stage} (h : Keeps answer root s₀ (s, stage))
    (stimulus : Stimulus) (live : (step engine s stage stimulus).1.context.cancelled = false) :
    Keeps answer root s₀ (step engine s stage stimulus) := by
  cases stage with
  | ended outcome => exact h
  | active activity timeLimit =>
    cases stimulus with
    | wake bell =>
      exact keeps_ofProgress h.within (comes_resume answers activity patient distinct h.foretold) live
    | heed =>
      simp only [step, heed] at live ⊢
      split at live
      · next ticket _ dead _ =>
        exact absurd live (ne_false_of_eq_true (dead_ofProgress (dead_resume activity dead)))
      · exact h
    | expire =>
      cases timeLimit with
      | none => exact h
      | some bound => cases (dead_expire bound s).symm.trans live
    | act effects =>
      have quiet : Within [] s (s.applyAll effects) := .applyAll live
      exact ⟨Underway.within quiet h.foretold,
        h.within.trans (quiet.mono (List.nil_subset _))⟩

/-- Every state that the run of a patient tree reaches is as foretold, unless it is cancelled. -/
theorem keeps_of_reaches {p : RunState × Stage} (h : Reaches engine root limit s₀ p)
    (answers : engine.executor.Answers answer) (patient : root.Patient)
    (distinct : root.ids.Nodup) (live : p.1.context.cancelled = false) :
    Keeps answer root s₀ p := by
  induction h with
  | refl => exact keeps_launch answers patient distinct live
  | tail _ move ih =>
    cases move with
    | step s stage time stimulus =>
      have alive : (later s time).context.cancelled = false := alive_of (dead_step stage stimulus) live
      exact keeps_step answers patient distinct ((ih alive).later time) stimulus live

end Forecast

end Stepwise
