import Stepwise.Context
import Stepwise.Proofs.Node.Tree
import Stepwise.Proofs.Table

/-!
# States of nodes in a context

What each operation of a context does to the phase of every node, and that none but `cancel`
cancels the run. `halted` is the phase of a node once it is cancelled: a running node ends, and
any other stays as it is.
-/

namespace Stepwise

namespace NodeState

theorem isTerminal_iff {state : NodeState} :
    state.isTerminal = true ↔ state ≠ .pending ∧ state ≠ .running := by
  cases state <;> decide

end NodeState

namespace Phase

/-- What is told of a node goes with its state. -/
structure Consistent (phase : Phase) : Prop where
  started : phase.startedAt?.isSome = true ↔ phase.state ≠ .pending
  ended : phase.endedAt?.isSome = true ↔ phase.state.isTerminal = true
  valued : phase.result?.isSome = true ↔ phase.state.isTerminal = true
  faulty : phase.error?.isSome = true → phase.state = .failed ∨ phase.state = .cancelled
  failed : phase.state = .failed → phase.error?.isSome = true
  untried : phase.state = .pending → phase.retries = 0

theorem isTerminal_state (ending : Ending) : ending.state.isTerminal = true := by
  cases ending <;> rfl

variable {phase : Phase}

/-! ## Fields -/

theorem start_of_pending (h : phase.state = .pending) (now : Nat) :
    phase.start now = { phase with state := .running, startedAt? := some now } := if_pos h

theorem start_of_ne (h : phase.state ≠ .pending) (now : Nat) : phase.start now = phase := if_neg h

theorem finish_of_running (h : phase.state = .running) (now : Nat) (ending : Ending)
    (result : Json) : phase.finish now ending result =
      { phase with
        state := ending.state, endedAt? := some now, result? := some result,
        error? := ending.error? } := if_pos h

theorem finish_of_ne (h : phase.state ≠ .running) (now : Nat) (ending : Ending)
    (result : Json) : phase.finish now ending result = phase := if_neg h

theorem retry_of_running (h : phase.state = .running) :
    phase.retry = { phase with retries := phase.retries + 1 } := if_pos h

theorem retry_of_ne (h : phase.state ≠ .running) : phase.retry = phase := if_neg h

theorem state_start (phase : Phase) (now : Nat) :
    (phase.start now).state = if phase.state = .pending then .running else phase.state := by
  unfold start
  split <;> rfl

theorem state_finish (phase : Phase) (now : Nat) (ending : Ending) (result : Json) :
    (phase.finish now ending result).state =
      if phase.state = .running then ending.state else phase.state := by
  unfold finish
  split <;> rfl

/-- No node runs that has been ended. -/
theorem state_finish_ne (phase : Phase) (now : Nat) (ending : Ending) (result : Json) :
    (phase.finish now ending result).state ≠ .running := by
  rw [state_finish]
  split
  · cases ending <;> nofun
  · assumption

@[simp] theorem state_retry (phase : Phase) : phase.retry.state = phase.state := by
  unfold retry
  split <;> rfl

theorem result?_start (phase : Phase) (now : Nat) : (phase.start now).result? = phase.result? := by
  unfold start
  split <;> rfl

theorem result?_finish (h : phase.state = .running) (now : Nat) (ending : Ending)
    (result : Json) : (phase.finish now ending result).result? = some result := by
  rw [finish_of_running h]

theorem result?_retry (phase : Phase) : phase.retry.result? = phase.result? := by
  unfold retry
  split <;> rfl

@[simp] theorem retries_finish (phase : Phase) (now : Nat) (ending : Ending) (result : Json) :
    (phase.finish now ending result).retries = phase.retries := by
  unfold finish
  split <;> rfl

/-! ## Consistency -/

namespace Consistent

protected theorem pending : Phase.pending.Consistent := by
  constructor <;> simp [Phase.pending, NodeState.isTerminal]

theorem start (h : phase.Consistent) (now : Nat) : (phase.start now).Consistent := by
  by_cases idle : phase.state = .pending
  · rw [start_of_pending idle]
    have unended : phase.endedAt?.isSome = true ↔ False := by
      simpa [idle, NodeState.isTerminal] using h.ended
    have unvalued : phase.result?.isSome = true ↔ False := by
      simpa [idle, NodeState.isTerminal] using h.valued
    have faultless : phase.error?.isSome = true → False := by simpa [idle] using h.faulty
    exact {
      started := by simp
      ended := by simpa [NodeState.isTerminal] using unended
      valued := by simpa [NodeState.isTerminal] using unvalued
      faulty := fun faulty => (faultless faulty).elim
      failed := nofun
      untried := nofun }
  · rw [start_of_ne idle]
    exact h

theorem finish (h : phase.Consistent) (now : Nat) (ending : Ending) (result : Json) :
    (phase.finish now ending result).Consistent := by
  by_cases runs : phase.state = .running
  · rw [finish_of_running runs]
    have begun : phase.startedAt?.isSome = true := h.started.2 (by rw [runs]; decide)
    have terminal := isTerminal_state ending
    exact {
      started := iff_of_true begun (NodeState.isTerminal_iff.1 terminal).1
      ended := iff_of_true rfl terminal
      valued := iff_of_true rfl terminal
      faulty := fun faulty => by
        cases ending with
        | completed => cases faulty
        | failed => exact .inl rfl
        | cancelled => exact .inr rfl
      failed := fun failed => by
        cases ending with
        | failed => rfl
        | completed | cancelled => cases failed
      untried := fun idle => absurd idle (NodeState.isTerminal_iff.1 terminal).1 }
  · rw [finish_of_ne runs]
    exact h

theorem retry (h : phase.Consistent) : phase.retry.Consistent := by
  by_cases runs : phase.state = .running
  · rw [retry_of_running runs]
    have begun : phase.state ≠ .pending := by rw [runs]; decide
    exact ⟨h.started, h.ended, h.valued, h.faulty, h.failed, fun idle => absurd idle begun⟩
  · rw [retry_of_ne runs]
    exact h

end Consistent

end Phase

namespace Context

variable (context : Context)

/-- How far a node has come, by name. -/
def state (id : String) : NodeState := (context.phase id).state

/-- The phase of a node once it is cancelled. -/
def halted (now : Nat) (id : String) : Phase :=
  (context.phase id).finish now (Phase.cancelEnding (context.cancelledValue id))
    (context.cancelledValue id)

theorem state_halted (now : Nat) (id : String) : (context.halted now id).state =
    if context.state id = .running then .cancelled else context.state id := by
  rw [halted, Phase.state_finish]
  rfl

/-- Nothing runs once it is cancelled. -/
theorem state_halted_ne (now : Nat) (id : String) : (context.halted now id).state ≠ .running :=
  (context.phase id).state_finish_ne now _ _

theorem halted_of_ne {id : String} (h : context.state id ≠ .running) (now : Nat) :
    context.halted now id = context.phase id := Phase.finish_of_ne h ..

/-- A halted phase hangs on no more than the phase before and the execution. -/
theorem halted_congr {other : Context} (executionId : other.executionId = context.executionId)
    {id : String} (phase : other.phase id = context.phase id) (now : Nat) :
    other.halted now id = context.halted now id := by
  rw [halted, halted, cancelledValue, cancelledValue, executionId, phase]

/-- A node that is halted once stays as it is when it is halted again. -/
theorem halted_of_halted {other : Context} {id : String} {now : Nat}
    (phase : other.phase id = context.halted now id) :
    other.halted now id = context.halted now id := by
  rw [← phase]
  apply halted_of_ne
  rw [state, phase]
  exact context.state_halted_ne now id

/-! ## Single nodes -/

@[simp] theorem phase_setPhase (id other : String) (phase : Phase) :
    (context.setPhase id phase).phase other = if id = other then phase else context.phase other := by
  simp only [Context.phase, setPhase, Table.find?_insert]
  split <;> rfl

@[simp] theorem phase_setResult (other : String) (value : Json) (id : String) :
    (context.setResult other value).phase id = context.phase id := rfl

@[simp] theorem phase_touch (id other : String) :
    (context.touch id).phase other = context.phase other := by
  rw [touch, phase_setPhase]
  split
  · next h => rw [h]
  · rfl

theorem phase_start (now : Nat) (id other : String) : (context.start now id).2.phase other =
    if id = other then (context.phase other).start now else context.phase other := by
  rw [start, phase_setPhase]
  split
  · next h => rw [h]
  · rfl

theorem phase_recordRetry (id other : String) : (context.recordRetry id).phase other =
    if id = other then (context.phase other).retry else context.phase other := by
  rw [recordRetry, phase_setPhase]
  split
  · next h => rw [h]
  · rfl

theorem cancelNode_of_running {id : String} (h : context.state id = .running) (now : Nat) :
    context.cancelNode now id =
      (true, (context.setPhase id (context.halted now id)).setResult id (context.cancelledValue id)) :=
  if_pos h

theorem cancelNode_of_ne {id : String} (h : context.state id ≠ .running) (now : Nat) :
    context.cancelNode now id = (false, context) := if_neg h

theorem phase_cancelNode (now : Nat) (id other : String) :
    (context.cancelNode now id).2.phase other =
    if id = other then context.halted now other else context.phase other := by
  by_cases h : context.state id = .running
  · rw [cancelNode_of_running context h, phase_setResult, phase_setPhase]
    split
    · next heq => rw [heq]
    · rfl
  · rw [cancelNode_of_ne context h]
    split
    · next heq => exact (context.halted_of_ne (heq ▸ h) now).symm
    · rfl

@[simp] theorem executionId_cancelNode (now : Nat) (id : String) :
    (context.cancelNode now id).2.executionId = context.executionId := by
  unfold cancelNode
  split <;> rfl

@[simp] theorem cancelled_cancelNode (now : Nat) (id : String) :
    (context.cancelNode now id).2.cancelled = context.cancelled := by
  unfold cancelNode
  split <;> rfl

@[simp] theorem cancelledValue_cancelNode (now : Nat) (id other : String) :
    (context.cancelNode now id).2.cancelledValue other = context.cancelledValue other := by
  rw [cancelledValue, executionId_cancelNode, cancelledValue]

/-- A node that is cancelled has the value of a cancelled node among the results. -/
theorem results_cancelNode (now : Nat) (id other : String) :
    (context.cancelNode now id).2.results.find? other =
      if id = other ∧ context.state other = .running then some (context.cancelledValue other)
      else context.results.find? other := by
  by_cases h : context.state id = .running
  · rw [cancelNode_of_running context h]
    simp only [setResult, setPhase, Table.find?_insert]
    by_cases heq : id = other
    · subst heq
      rw [if_pos rfl, if_pos ⟨rfl, h⟩]
    · rw [if_neg heq, if_neg fun both => heq both.1]
  · rw [cancelNode_of_ne context h, if_neg]
    rintro ⟨rfl, running⟩
    exact h running

/-! ## Many nodes at a time -/

@[simp] theorem executionId_cancelAll (now : Nat) (ids : List String) :
    (context.cancelAll now ids).2.executionId = context.executionId := by
  induction ids generalizing context with
  | nil => rfl
  | cons id rest ih => exact (ih _).trans (context.executionId_cancelNode now id)

@[simp] theorem cancelled_cancelAll (now : Nat) (ids : List String) :
    (context.cancelAll now ids).2.cancelled = context.cancelled := by
  induction ids generalizing context with
  | nil => rfl
  | cons id rest ih => exact (ih _).trans (context.cancelled_cancelNode now id)

/-- What has been cancelled stays as it is when it is cancelled again. -/
theorem halted_cancelNode (now : Nat) (id other : String) :
    (context.cancelNode now id).2.halted now other = context.halted now other := by
  have phase := context.phase_cancelNode now id other
  split at phase
  · exact context.halted_of_halted phase
  · exact context.halted_congr (context.executionId_cancelNode now id) phase now

theorem phase_cancelAll (now : Nat) (ids : List String) (other : String) :
    (context.cancelAll now ids).2.phase other =
      if other ∈ ids then context.halted now other else context.phase other := by
  induction ids generalizing context with
  | nil => rfl
  | cons id rest ih =>
    have step : (context.cancelAll now (id :: rest)).2.phase other =
        ((context.cancelNode now id).2.cancelAll now rest).2.phase other := rfl
    rw [step, ih, halted_cancelNode, phase_cancelNode]
    by_cases hrest : other ∈ rest
    · rw [if_pos hrest, if_pos (List.mem_cons_of_mem _ hrest)]
    · rw [if_neg hrest]
      by_cases heq : id = other
      · rw [if_pos heq, if_pos (heq ▸ List.mem_cons_self)]
      · rw [if_neg heq, if_neg]
        intro member
        rcases List.mem_cons.1 member with rfl | member
        · exact heq rfl
        · exact hrest member

theorem halted_cancelAll (now : Nat) (ids : List String) (other : String) :
    (context.cancelAll now ids).2.halted now other = context.halted now other := by
  induction ids generalizing context with
  | nil => rfl
  | cons id rest ih => exact (ih _).trans (context.halted_cancelNode now id other)

theorem results_cancelAll (now : Nat) (ids : List String) (other : String) :
    (context.cancelAll now ids).2.results.find? other =
      if other ∈ ids ∧ context.state other = .running then some (context.cancelledValue other)
      else context.results.find? other := by
  induction ids generalizing context with
  | nil => simp [cancelAll]
  | cons id rest ih =>
    have step : (context.cancelAll now (id :: rest)).2.results.find? other =
        ((context.cancelNode now id).2.cancelAll now rest).2.results.find? other := rfl
    have phase := context.phase_cancelNode now id other
    rw [step, ih, results_cancelNode, cancelledValue_cancelNode]
    by_cases heq : id = other
    · -- It does not run any more, so it is not cancelled once more.
      rw [if_pos heq] at phase
      have stopped : (context.cancelNode now id).2.state other ≠ .running := by
        rw [state, phase]
        exact context.state_halted_ne now other
      rw [if_neg fun both => stopped both.2]
      simp [heq]
    · rw [if_neg heq] at phase
      have same : (context.cancelNode now id).2.state other = context.state other :=
        congrArg Phase.state phase
      simp [heq, Ne.symm heq, same]

theorem phase_of_notMem_keys {id : String} (h : id ∉ context.nodes.keys) :
    context.phase id = .pending := by
  have missing : context.nodes.find? id = none := Table.find?_eq_none h
  rw [phase, missing]
  rfl

theorem phase_of_nodes (nodes : context.nodes = []) (id : String) :
    context.phase id = .pending := by
  rw [phase, nodes]
  rfl

/-- A cancelled run has no running node left, and its other nodes are as before. -/
theorem phase_cancelRunning (now : Nat) (id : String) :
    (context.cancelRunning now).2.phase id = context.halted now id := by
  rw [cancelRunning, phase_cancelAll]
  split
  · rfl
  · next h =>
    have pending := context.phase_of_notMem_keys h
    rw [context.halted_of_ne]
    rw [state, pending]
    decide

theorem phase_rearm (node : Node) (id : String) :
    (context.rearm node).phase id = if id ∈ node.ids then .pending else context.phase id := by
  rw [rearm]
  generalize node.ids = ids
  induction ids generalizing context with
  | nil => rfl
  | cons first rest ih =>
    rw [List.foldl_cons, ih, phase_setPhase]
    by_cases hrest : id ∈ rest
    · rw [if_pos hrest, if_pos (List.mem_cons_of_mem _ hrest)]
    · rw [if_neg hrest]
      by_cases heq : first = id
      · rw [if_pos heq, if_pos (heq ▸ List.mem_cons_self)]
      · rw [if_neg heq, if_neg]
        intro member
        rcases List.mem_cons.1 member with rfl | member
        · exact heq rfl
        · exact hrest member

@[simp] theorem cancelled_rearm (node : Node) :
    (context.rearm node).cancelled = context.cancelled := by
  rw [rearm]
  generalize node.ids = ids
  induction ids generalizing context with
  | nil => rfl
  | cons first rest ih => exact ih _

/-! ## Nodes that are left alone -/

/-- A node is left alone: it stays in its state, and if it does not run it stays as it is. Only the
cancellation of the run may end it. -/
def LeftAlone (later : Context) (id : String) : Prop :=
  (later.state id = context.state id ∧
      (context.state id ≠ .running → later.phase id = context.phase id)) ∨
    (context.state id = .running ∧ later.state id = .cancelled ∧ later.cancelled = true)

variable {context} {middle later : Context} {id : String}

theorem LeftAlone.of_phase (h : later.phase id = context.phase id) : context.LeftAlone later id :=
  .inl ⟨congrArg Phase.state h, fun _ => h⟩

theorem LeftAlone.of_halted {now : Nat} (h : later.phase id = context.halted now id)
    (cancelled : later.cancelled = true) : context.LeftAlone later id := by
  by_cases running : context.state id = .running
  · refine .inr ⟨running, ?_, cancelled⟩
    rw [state, h, state_halted, if_pos running]
  · exact .of_phase (h.trans (context.halted_of_ne running now))

theorem LeftAlone.trans (first : context.LeftAlone middle id) (second : middle.LeftAlone later id)
    (cancelled : middle.cancelled = true → later.cancelled = true) : context.LeftAlone later id := by
  rcases first with ⟨state, phase⟩ | ⟨running, ended, hcancelled⟩
  · rcases second with ⟨state', phase'⟩ | ⟨running', ended', hcancelled'⟩
    · refine .inl ⟨state'.trans state, fun h => ?_⟩
      exact (phase' (state ▸ h)).trans (phase h)
    · exact .inr ⟨state ▸ running', ended', hcancelled'⟩
  · rcases second with ⟨state', -⟩ | ⟨running', -⟩
    · exact .inr ⟨running, state'.trans ended, cancelled hcancelled⟩
    · rw [ended] at running'
      cases running'

/-- Nothing happens to a node that does not run and is left alone. -/
theorem LeftAlone.phase_eq (h : context.LeftAlone later id) (idle : context.state id ≠ .running) :
    later.phase id = context.phase id := by
  rcases h with ⟨-, phase⟩ | ⟨running, -⟩
  · exact phase idle
  · exact absurd running idle

theorem LeftAlone.state_eq (h : context.LeftAlone later id) (live : later.cancelled = false) :
    later.state id = context.state id := by
  rcases h with ⟨state, -⟩ | ⟨-, -, cancelled⟩
  · exact state
  · rw [live] at cancelled
    cases cancelled

end Context

end Stepwise
