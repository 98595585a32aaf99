import Mathlib.Data.Finset.Card
import Mathlib.Data.Finset.Filter
import Stepwise.Proofs.Context.Lifecycle

/-!
# Sweeps

A sweep cancels those of some nodes that run. Each of them ends with the fault of the cancellation,
which is also its result from then on; whatever else there is stays as it is, and what is counted
are the nodes that have changed (`Swept`). A second sweep finds nothing to do (`sweep_exact`).
-/

namespace Stepwise.Context

variable {context later : Context}

/-- Those nodes that run of some ids are cancelled, and nothing else changes. -/
structure Swept (chosen : String → Prop) (now : Nat) (context later : Context) (count : Nat) :
    Prop where
  /-- A node that ran has ended with the fault of the cancellation, and has its value as a result.
  -/
  cancelled : ∀ id, chosen id → context.state id = .running → ∃ phase,
    context.nodes.find? id = some phase ∧
    later.nodes.find? id = some { phase with
      state := .cancelled
      endedAt? := some now
      result? := some ((Fault.cancelled context.executionId).value id)
      error? := some (Fault.cancelled context.executionId).message } ∧
    later.results.find? id = some ((Fault.cancelled context.executionId).value id)
  kept : ∀ id, ¬ (chosen id ∧ context.state id = .running) →
    later.nodes.find? id = context.nodes.find? id ∧
    later.results.find? id = context.results.find? id
  rest : later = { context with nodes := later.nodes, results := later.results }
  counted : count =
    (context.nodes.keys.toFinset.filter fun id => later.state id ≠ context.state id).card

/-- The record of a running node once it is cancelled. -/
theorem halted_of_running {id : String} (running : context.state id = .running) (now : Nat) :
    context.halted now id = { context.phase id with
      state := .cancelled
      endedAt? := some now
      result? := some ((Fault.cancelled context.executionId).value id)
      error? := some (Fault.cancelled context.executionId).message } := by
  rw [halted, Phase.finish_of_running running]
  rfl

/-- What has been cancelled or did not run does not run. -/
theorem state_cancelNode_ne (context : Context) (now : Nat) (id : String) :
    (context.cancelNode now id).2.state id ≠ .running := by
  rw [state, phase_cancelNode, if_pos rfl]
  exact context.state_halted_ne now id

/-! ## What is listed -/

theorem nodes_cancelNode (context : Context) (now : Nat) (id other : String) :
    (context.cancelNode now id).2.nodes.find? other =
      if id = other ∧ context.state other = .running then some (context.halted now other)
      else context.nodes.find? other := by
  by_cases running : context.state id = .running
  · rw [cancelNode_of_running context running]
    simp only [setResult, setPhase, Table.find?_insert]
    by_cases own : id = other
    · subst own
      rw [if_pos rfl, if_pos ⟨rfl, running⟩]
    · rw [if_neg own, if_neg fun both => own both.1]
  · rw [cancelNode_of_ne context running, if_neg]
    rintro ⟨rfl, runs⟩
    exact running runs

theorem nodes_cancelAll (context : Context) (now : Nat) (ids : List String) (other : String) :
    (context.cancelAll now ids).2.nodes.find? other =
      if other ∈ ids ∧ context.state other = .running then some (context.halted now other)
      else context.nodes.find? other := by
  induction ids generalizing context with
  | nil => simp [cancelAll]
  | cons id rest ih =>
    have step : (context.cancelAll now (id :: rest)).2.nodes.find? other =
        ((context.cancelNode now id).2.cancelAll now rest).2.nodes.find? other := rfl
    rw [step, ih, nodes_cancelNode, halted_cancelNode]
    by_cases own : id = other
    · subst own
      rw [if_neg fun both => context.state_cancelNode_ne now id both.2]
      simp
    · have same : (context.cancelNode now id).2.state other = context.state other := by
        rw [state, phase_cancelNode, if_neg own, state]
      simp [own, Ne.symm own, same]

/-! ## What is counted -/

/-- As many nodes are counted as have run. -/
theorem count_cancelAll (context : Context) (now : Nat) (ids : List String) :
    (context.cancelAll now ids).1 =
      (ids.toFinset.filter fun id => context.state id = .running).card := by
  induction ids generalizing context with
  | nil => rfl
  | cons id rest ih =>
    have step : (context.cancelAll now (id :: rest)).1 =
        ((context.cancelNode now id).2.cancelAll now rest).1 +
          (if (context.cancelNode now id).1 then 1 else 0) := rfl
    rw [step, ih, List.toFinset_cons, Finset.filter_insert]
    by_cases running : context.state id = .running
    · -- It does not run any more, so it is not counted again.
      have others : (rest.toFinset.filter fun other =>
          (context.cancelNode now id).2.state other = .running) =
          (rest.toFinset.filter fun other => context.state other = .running).erase id := by
        ext other
        rw [Finset.mem_erase, Finset.mem_filter, Finset.mem_filter]
        by_cases own : id = other
        · subst own
          simp [context.state_cancelNode_ne now id]
        · have same : (context.cancelNode now id).2.state other = context.state other := by
            rw [state, phase_cancelNode, if_neg own, state]
          simp [Ne.symm own, same]
      rw [if_pos running, others, cancelNode_of_running context running, if_pos rfl,
        ← Finset.erase_insert_eq_erase, Finset.card_erase_add_one (Finset.mem_insert_self ..)]
    · rw [if_neg running, cancelNode_of_ne context running]
      simp

/-- If none of some nodes runs, there is nothing to cancel. -/
theorem cancelAll_of_idle {ids : List String} (idle : ∀ id ∈ ids, context.state id ≠ .running)
    (now : Nat) : context.cancelAll now ids = (0, context) := by
  induction ids with
  | nil => rfl
  | cons id rest ih =>
    rw [List.forall_mem_cons] at idle
    rw [cancelAll, cancelNode_of_ne context idle.1]
    dsimp only
    rw [ih idle.2]
    rfl

/-! ## Sweeps are exact -/

theorem rest_cancelAll (context : Context) (now : Nat) (ids : List String) :
    (context.cancelAll now ids).2 =
      { context with
        nodes := (context.cancelAll now ids).2.nodes
        results := (context.cancelAll now ids).2.results } := by
  induction ids generalizing context with
  | nil => rfl
  | cons id rest ih =>
    refine (ih (context.cancelNode now id).2).trans ?_
    by_cases running : context.state id = .running
    · simp only [cancelAll, cancelNode_of_running context running]
      rfl
    · simp only [cancelAll, cancelNode_of_ne context running]

theorem state_cancelAll (context : Context) (now : Nat) (ids : List String) (id : String) :
    (context.cancelAll now ids).2.state id =
      if id ∈ ids ∧ context.state id = .running then .cancelled else context.state id := by
  rw [state, phase_cancelAll]
  by_cases member : id ∈ ids
  · simp [member, state_halted]
  · simp [member, state]

theorem swept_cancelAll (context : Context) (now : Nat) (ids : List String) :
    Swept (· ∈ ids) now context (context.cancelAll now ids).2 (context.cancelAll now ids).1 where
  cancelled id member running := by
    have begun : context.state id ≠ .pending := by
      rw [running]
      decide
    refine ⟨context.phase id, find?_eq_phase begun, ?_, ?_⟩
    · rw [nodes_cancelAll, if_pos ⟨member, running⟩, halted_of_running running]
    · rw [results_cancelAll, if_pos ⟨member, running⟩]
      rfl
  kept id spared := by
    rw [nodes_cancelAll, results_cancelAll, if_neg spared, if_neg spared]
    exact ⟨rfl, rfl⟩
  rest := context.rest_cancelAll now ids
  counted := by
    rw [count_cancelAll]
    congr 1
    ext id
    rw [Finset.mem_filter, Finset.mem_filter, List.mem_toFinset, List.mem_toFinset, state_cancelAll]
    by_cases runs : id ∈ ids ∧ context.state id = .running
    · have listed : id ∈ context.nodes.keys := mem_keys_of_ne (by rw [runs.2]; decide)
      simp [runs.1, runs.2, listed]
    · simp [runs]

/-- It makes no difference whether nodes are chosen that do not run. -/
theorem Swept.congr {chosen other : String → Prop} {now count : Nat}
    (h : Swept chosen now context later count)
    (same : ∀ id, context.state id = .running → (chosen id ↔ other id)) :
    Swept other now context later count where
  cancelled id member running := h.cancelled id ((same id running).2 member) running
  kept id spared := h.kept id fun both => spared ⟨(same id both.2).1 both.1, both.2⟩
  rest := h.rest
  counted := h.counted

/-- A sweep through a tree cancels just those nodes that run and stand in it, however often; a sweep
through the context cancels just those that run. Neither finds anything to do a second time. -/
theorem sweep_exact (context : Context) (now again : Nat) :
    (∀ tree : Node, ∃ count later, context.cancelRunningIn now tree = (count, later) ∧
      Swept (· ∈ tree.ids) now context later count ∧
      later.cancelRunningIn again tree = (0, later)) ∧
    ∃ count later, context.cancelRunning now = (count, later) ∧
      Swept (fun _ => True) now context later count ∧ later.cancelRunning again = (0, later) := by
  refine ⟨fun tree => ⟨_, _, rfl, context.swept_cancelAll now tree.ids, ?_⟩, _, _, rfl, ?_, ?_⟩
  · refine cancelAll_of_idle (fun id member => ?_) again
    rw [state_cancelAll]
    split
    · decide
    · next spared => exact fun running => spared ⟨member, running⟩
  · exact (context.swept_cancelAll now context.nodes.keys).congr fun id running =>
      ⟨fun _ => trivial, fun _ => mem_keys_of_ne (by rw [running]; decide)⟩
  · refine cancelAll_of_idle (fun id _ => ?_) again
    have halted := context.phase_cancelRunning now id
    rw [cancelRunning] at halted
    rw [state, halted]
    exact context.state_halted_ne now id

end Stepwise.Context
