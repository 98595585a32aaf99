import Stepwise.Proofs.Run.Schedule
import Stepwise.Proofs.Run.Telling

/-!
# What acts change

An act of a run changes the phases of nodes and tells of it, in one of a few ways: a node starts
below one that runs, is tried again, or ends once nothing below it runs; the nodes below a node are
rearmed; what runs in the tree of a child is dropped; or everything that runs is halted, which
nobody is told of. `Change` says what each of these needs and what is told, so that what holds of
the phases and of the events can be shown from it without another look at the acts. Each operation
of a run makes such changes.
-/

namespace Stepwise

/-- The event that tells how a node has ended. -/
def Ending.event (ending : Ending) (id : String) (result : Json) (millis : Nat) : Event :=
  match ending with
  | .completed => .nodeCompleted id result millis
  | .failed error => .nodeFailed id error millis
  | .cancelled _ => .nodeCancelled id

/-- What one change does in the run of a tree, to nodes of some ids. -/
inductive Alters (root : Node) (ids : List String) (s s' : RunState) : Prop
  /-- No node changes. -/
  | quiet (same : ∀ id, s'.context.phase id = s.context.phase id)
      (tells : s.world.Tells s'.world [])
  /-- All nodes that run are cancelled, with the run. -/
  | halt (dead : s'.context.cancelled = true)
      (phases : ∀ id, s'.context.phase id = s.context.halted s.now id)
      (tells : s.world.Tells s'.world [])
  /-- A node that was pending starts below one that runs. -/
  | begin {node : Node} (inside : node ∈ root.preorder) (member : node.id ∈ ids)
      (pending : s.context.phase node.id = .pending)
      (above : node = root ∨ ∃ parent ∈ root.preorder, node ∈ parent.children ∧
        s.context.state parent.id = .running)
      (phases : ∀ id, s'.context.phase id =
        if node.id = id then .running s.now 0 else s.context.phase id)
      (tells : s.world.Tells s'.world [.nodeStarted node.id node.kind.nodeType])
  /-- A node that runs tries once more. -/
  | retry {node : Node} {since retries : Nat} {error : String} (inside : node ∈ root.preorder)
      (member : node.id ∈ ids) (running : s.context.phase node.id = .running since retries)
      (phases : ∀ id, s'.context.phase id =
        if node.id = id then .running since (retries + 1) else s.context.phase id)
      (tells : s.world.Tells s'.world [.taskRetrying node.id (retries + 1) error])
  /-- What is below a node becomes pending again. -/
  | rearm {node : Node} (inside : node ∈ root.preorder) (members : Node.idsAll node.children ⊆ ids)
      (phases : ∀ id, s'.context.phase id =
        if id ∈ Node.idsAll node.children then .pending else s.context.phase id)
      (tells : s.world.Tells s'.world [])
  /-- A node that runs ends, and nothing below it runs. -/
  | close {node : Node} {millis : Nat} {ending : Ending} {result : Json}
      (inside : node ∈ root.preorder) (member : node.id ∈ ids)
      (running : s.context.state node.id = .running)
      (below : ∀ child ∈ node.children, s.context.state child.id ≠ .running)
      (phases : ∀ id, s'.context.phase id =
        if node.id = id then (s.context.phase id).finish s.now ending result
        else s.context.phase id)
      (tells : s.world.Tells s'.world [ending.event node.id result millis])
  /-- What runs in the tree of a child is cancelled. -/
  | drop {parent child : Node} (inside : parent ∈ root.preorder) (member : child ∈ parent.children)
      (members : child.ids ⊆ ids) (busy : ∃ id ∈ child.ids, s.context.state id = .running)
      (phases : ∀ id, s'.context.phase id =
        if id ∈ child.ids then s.context.halted s.now id else s.context.phase id)
      (tells : s.world.Tells s'.world [.nodeCancelled child.id])

/-- No call is made, or one in the name of a node of some ids that runs. In a run that is deaf to
its cancellation the node may have been cancelled with it. -/
inductive Calling (manner : Manner) (ids : List String) (s s' : RunState) : Prop
  | silent (same : s'.world.calls = s.world.calls)
  | call {entry : CallEntry} (made : s'.world.calls = s.world.calls ++ [entry])
      (member : entry.caller ∈ ids)
      (running : (manner = .deaf → s.context.cancelled = false) →
        s.context.state entry.caller = .running)

/-- One change in the run of a tree. None takes a cancellation back. -/
structure Change (root : Node) (manner : Manner) (ids : List String) (s s' : RunState) : Prop where
  kept : s.context.cancelled = true → s'.context.cancelled = true
  alters : Alters root ids s s'
  calls : Calling manner ids s s'

/-- One change after another. -/
abbrev Changes (root : Node) (manner : Manner) (ids : List String) : RunState → RunState → Prop :=
  Relation.ReflTransGen (Change root manner ids)

variable {root : Node} {manner : Manner} {ids more : List String} {s s' : RunState}

/-- A change within some nodes is one within more of them. -/
theorem Alters.mono (h : Alters root ids s s') (subset : ids ⊆ more) : Alters root more s s' := by
  cases h with
  | quiet same tells => exact .quiet same tells
  | halt dead phases tells => exact .halt dead phases tells
  | begin inside member pending above phases tells =>
    exact .begin inside (subset member) pending above phases tells
  | retry inside member running phases tells =>
    exact .retry inside (subset member) running phases tells
  | rearm inside members phases tells =>
    exact .rearm inside (List.Subset.trans members subset) phases tells
  | close inside member running below phases tells =>
    exact .close inside (subset member) running below phases tells
  | drop inside member members busy phases tells =>
    exact .drop inside member (List.Subset.trans members subset) busy phases tells

theorem Calling.mono (h : Calling manner ids s s') (subset : ids ⊆ more) :
    Calling manner more s s' := by
  cases h with
  | silent same => exact .silent same
  | call made member running => exact .call made (subset member) running

/-- Whoever heeds a cancellation makes calls as anybody may. -/
theorem Calling.of_heeding (h : Calling .heeding ids s s') : Calling manner ids s s' := by
  cases h with
  | silent same => exact .silent same
  | call made member running => exact .call made member fun _ => running nofun

/-- A node of another id stays as it is, or the run is halted. -/
theorem Alters.aside (h : Alters root ids s s') {id : String} (other : id ∉ ids) :
    s'.context.phase id = s.context.phase id ∨ s'.context.cancelled = true := by
  cases h with
  | quiet same => exact .inl (same id)
  | halt dead => exact .inr dead
  | begin _ member _ _ phases | retry _ member _ phases | close _ member _ _ phases =>
    refine .inl ((phases id).trans (if_neg ?_))
    rintro rfl
    exact other member
  | rearm _ members phases =>
    exact .inl ((phases id).trans (if_neg fun inside => other (members inside)))
  | drop _ _ members _ phases =>
    exact .inl ((phases id).trans (if_neg fun inside => other (members inside)))

theorem Change.live (change : Change root manner ids s s') (h : s'.context.cancelled = false) :
    s.context.cancelled = false :=
  eq_false_of_ne_true fun dead => ne_true_of_eq_false h (change.kept dead)

namespace Changes

theorem mono (changes : Changes root manner ids s s') (h : ids ⊆ more) :
    Changes root manner more s s' := by
  induction changes with
  | refl => exact .refl
  | tail _ change ih => exact ih.tail ⟨change.kept, change.alters.mono h, change.calls.mono h⟩

/-- What changes in a run that heeds its cancellation may change in any. -/
theorem of_heeding (changes : Changes root .heeding ids s s') : Changes root manner ids s s' := by
  induction changes with
  | refl => exact .refl
  | tail _ change ih => exact ih.tail ⟨change.kept, change.alters, change.calls.of_heeding⟩

theorem live (changes : Changes root manner ids s s') (h : s'.context.cancelled = false) :
    s.context.cancelled = false := by
  induction changes with
  | refl => exact h
  | tail _ change ih => exact ih (change.live h)

/-- Unless the run is cancelled, nodes of other ids stay as they are. -/
theorem aside (changes : Changes root manner ids s s') (live : s'.context.cancelled = false)
    {id : String}
    (other : id ∉ ids) : s'.context.phase id = s.context.phase id := by
  induction changes with
  | refl => rfl
  | tail _ change ih =>
    have last := (change.alters.aside other).resolve_right (ne_true_of_eq_false live)
    exact last.trans (ih (change.live live))

/-- What changes keep step by step they keep together. -/
theorem invariant (changes : Changes root manner ids s s') (P : RunState → Prop)
    (step : ∀ s s', Change root manner ids s s' → P s → P s') (initial : P s) : P s' := by
  induction changes with
  | refl => exact initial
  | tail _ change ih => exact step _ _ change ih

end Changes

/-! ## What the operations of a run tell -/

namespace Context

/-- Of some nodes any is cancelled if any was running. -/
theorem cancelAll_pos_iff (context : Context) (now : Nat) (ids : List String) :
    0 < (context.cancelAll now ids).1 ↔ ∃ id ∈ ids, context.state id = .running := by
  induction ids generalizing context with
  | nil => simp [cancelAll]
  | cons first rest ih =>
    by_cases running : context.state first = .running
    · simp [cancelAll, cancelNode_of_running context running, running]
    · simp [cancelAll, cancelNode_of_ne context running, running, ih]

end Context

namespace RunState

variable (s : RunState)

/-- Unless an answer cancels the run no node changes. -/
theorem phase_applyAll_of_live {effects : List Effect}
    (live : (s.applyAll effects).context.cancelled = false) (id : String) :
    (s.applyAll effects).context.phase id = s.context.phase id := by
  rcases s.phase_applyAll effects with same | ⟨dead, -⟩
  · exact same id
  · rw [live] at dead
    cases dead

/-- A node that runs and ends is told of just as it ends. -/
theorem tells_record {id : String} (running : s.context.state id = .running)
    (outcome : Except Fault Json) : ∃ ending result millis,
      s.closed id outcome = (s.context.phase id).finish s.now ending result ∧
      s.world.Tells (s.record id outcome).world [ending.event id result millis] := by
  have started : (s.context.phase id).state = .running := running
  cases outcome with
  | ok value =>
    refine ⟨.completed, value, s.runningFor id, rfl, ?_⟩
    simp only [record, Context.finish, started, decide_true]
    exact World.tells_emit _ _
  | error fault =>
    by_cases dead : fault.isCancelled = true
    · refine ⟨Phase.cancelEnding (s.context.cancelledValue id), s.context.cancelledValue id, 0,
        ?_, ?_⟩
      · simp only [closed, dead, if_true]
        rfl
      · simp only [record, dead, if_true, Context.cancelNode_of_running s.context running]
        exact World.tells_emit _ _
    · have plain : fault.isCancelled = false := eq_false_of_ne_true dead
      refine ⟨.failed fault.message, fault.value id, s.runningFor id, ?_, ?_⟩
      · simp [closed, plain]
      · simp only [record, plain, Context.finish, started, decide_true]
        exact World.tells_emit _ _

/-- Of a node that does not run nothing is told when its outcome comes. -/
theorem tells_record_of_ne {id : String} (idle : s.context.state id ≠ .running)
    (outcome : Except Fault Json) : s.world.Tells (s.record id outcome).world [] := by
  have stopped : ¬ (s.context.phase id).state = .running := idle
  cases outcome with
  | ok value =>
    simp only [record, Context.finish, stopped, decide_false]
    exact .of_eq rfl
  | error fault =>
    by_cases dead : fault.isCancelled = true
    · simp only [record, dead, if_true, Context.cancelNode_of_ne s.context idle]
      exact .of_eq rfl
    · have plain : fault.isCancelled = false := eq_false_of_ne_true dead
      simp only [record, plain, Context.finish, stopped, decide_false]
      exact .of_eq rfl

/-- A child that runs when its block stops is told to be cancelled. -/
theorem tells_sweep_of_busy {node : Node} (busy : ∃ id ∈ node.ids, s.context.state id = .running) :
    s.world.Tells (s.sweep [node]).world [.nodeCancelled node.id] := by
  have counted := (s.context.cancelAll_pos_iff s.now node.ids).2 busy
  simp only [sweep, Context.cancelRunningIn, counted, if_true]
  exact World.tells_emit _ _

/-- Of a child that does not run nothing is told when its block stops. -/
theorem tells_sweep_of_idle {node : Node}
    (idle : ¬ ∃ id ∈ node.ids, s.context.state id = .running) :
    s.world.Tells (s.sweep [node]).world [] := by
  have counted := mt (s.context.cancelAll_pos_iff s.now node.ids).1 idle
  simp only [sweep, Context.cancelRunningIn, counted, if_false]
  exact .of_eq rfl

end RunState

/-! ## The operations of a run -/

section

variable (s)

theorem change_touch (own : String) : Change root manner ids s (s.touch own) :=
  ⟨id, .quiet (s.phase_touch own) (.of_eq rfl), .silent rfl⟩

theorem change_takeTicket : Change root manner ids s s.takeTicket.2 :=
  ⟨id, .quiet (fun _ => rfl) (.of_eq rfl), .silent rfl⟩

theorem change_place (engine : Engine) {caller : String} (member : caller ∈ ids)
    (running : (manner = .deaf → s.context.cancelled = false) →
      s.context.state caller = .running) (call : Call) :
    Change root manner ids s (s.place engine caller call).2 :=
  ⟨id, .quiet (fun _ => rfl) (.of_eq rfl), .call rfl member running⟩

/-- What calls do to a run is a change of it. -/
theorem change_applyAll (effects : List Effect) :
    Change root manner ids s (s.applyAll effects) := by
  refine ⟨fun dead => ?_, ?_, .silent (s.calls_applyAll effects)⟩
  · rw [s.cancelled_applyAll, dead, Bool.true_or]
  have tells : s.world.Tells (s.applyAll effects).world [] := .of_eq (s.log_applyAll effects)
  rcases s.phase_applyAll effects with same | ⟨dead, phases⟩
  · exact .quiet same tells
  · exact .halt dead phases tells

theorem change_cancelExecution : Change root manner ids s s.cancelExecution :=
  ⟨fun _ => s.cancelled_cancelExecution,
    .halt s.cancelled_cancelExecution s.phase_cancelExecution (.of_eq rfl), .silent rfl⟩

variable {s}

/-- What is put off changes no node. -/
theorem change_note (openings : List Effect) :
    Change root manner ids s { s with world := { s.world with openings := openings } } :=
  ⟨id, .quiet (fun _ => rfl) (.of_eq rfl), .silent rfl⟩

/-- A node starts when it is pending, below a parent that runs. -/
theorem change_startNode {node : Node} (inside : node ∈ root.preorder) (member : node.id ∈ ids)
    (pending : s.context.phase node.id = .pending)
    (above : node = root ∨ ∃ parent ∈ root.preorder, node ∈ parent.children ∧
      s.context.state parent.id = .running) : Change root manner ids s (s.startNode node) := by
  refine ⟨id, .begin inside member pending above (fun id => ?_) (World.tells_emit _ _),
    .silent rfl⟩
  rw [s.phase_startNode]
  by_cases own : node.id = id
  · subst own
    rw [if_pos rfl, if_pos rfl, pending]
    rfl
  · rw [if_neg own, if_neg own]

/-- A task that runs counts one more attempt, and tells it. -/
theorem change_retry {node : Node} {since retries : Nat} (inside : node ∈ root.preorder)
    (member : node.id ∈ ids) (running : s.context.phase node.id = .running since retries)
    (fault : Fault) : Change root manner ids s (s.retry node.id (retries + 1) fault) := by
  refine ⟨id, .retry inside member running (fun id => ?_) (World.tells_emit _ _),
    .silent rfl⟩
  rw [s.phase_retry]
  by_cases own : node.id = id
  · subst own
    rw [if_pos rfl, if_pos rfl, running]
    rfl
  · rw [if_neg own, if_neg own]

theorem change_rearm {node : Node} (inside : node ∈ root.preorder)
    (members : Node.idsAll node.children ⊆ ids) : Change root manner ids s (s.rearm node.children) :=
  ⟨(s.cancelled_rearm _).trans, .rearm inside members (s.phase_rearm node.children) (.of_eq rfl),
    .silent rfl⟩

/-- A node ends when none of its children runs. -/
theorem change_record {node : Node} (inside : node ∈ root.preorder) (member : node.id ∈ ids)
    (below : ∀ child ∈ node.children, s.context.state child.id ≠ .running)
    (outcome : Except Fault Json) : Change root manner ids s (s.record node.id outcome) := by
  refine ⟨(s.cancelled_record _ _).trans, ?_, .silent (s.calls_record _ _)⟩
  have phases (id : String) := s.phase_record node.id id outcome
  by_cases running : s.context.state node.id = .running
  · obtain ⟨ending, result, millis, closed, tells⟩ := s.tells_record running outcome
    refine .close inside member running below (fun id => ?_) tells
    rw [phases id, closed]
    split
    · next own => rw [own]
    · rfl
  · refine .quiet (fun id => (phases id).trans ?_) (s.tells_record_of_ne running outcome)
    by_cases own : node.id = id
    · subst own
      rw [if_pos rfl, s.closed_of_ne running]
    · rw [if_neg own]

theorem change_sweep_singleton {parent child : Node} (inside : parent ∈ root.preorder)
    (member : child ∈ parent.children) (members : child.ids ⊆ ids) :
    Change root manner ids s (s.sweep [child]) := by
  refine ⟨(s.cancelled_sweep _).trans, ?_, .silent (s.calls_sweep _)⟩
  have phases (id : String) : (s.sweep [child]).context.phase id =
      if id ∈ child.ids then s.context.halted s.now id else s.context.phase id := by
    have swept := s.phase_sweep [child] id
    simpa using swept
  by_cases busy : ∃ id ∈ child.ids, s.context.state id = .running
  · exact .drop inside member members busy phases (s.tells_sweep_of_busy busy)
  · refine .quiet (fun id => (phases id).trans ?_) (s.tells_sweep_of_idle busy)
    by_cases hid : id ∈ child.ids
    · rw [if_pos hid, s.context.halted_of_ne fun running => busy ⟨id, hid, running⟩]
    · rw [if_neg hid]

/-- Trees below one node are swept one after the other. -/
theorem changes_sweep {parent : Node} (inside : parent ∈ root.preorder) {nodes : List Node}
    (members : nodes ⊆ parent.children) (allowed : Node.idsAll nodes ⊆ ids) (s : RunState) :
    Changes root manner ids s (s.sweep nodes) := by
  induction nodes generalizing s with
  | nil => exact .refl
  | cons child rest ih =>
    have first : Change root manner ids s (s.sweep [child]) :=
      change_sweep_singleton inside (members List.mem_cons_self) fun id hid =>
        allowed (Node.idsAll_subset List.mem_cons_self hid)
    have others := ih (fun n hn => members (List.mem_cons_of_mem _ hn))
      (fun id hid => allowed (List.mem_append_right _ hid)) (s.sweep [child])
    exact .head first others

end

end Stepwise
