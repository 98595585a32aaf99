import Mathlib.Logic.Relation
import Stepwise.Proofs.Context.State

/-!
# Lifecycles of nodes

Whatever is done to a context, a node goes from pending to running to an end, one step at a time,
and nothing of it changes once it has ended; only rearming brings it back (`lifecycle`). `Operation`
lists what may be done, `Evolves` is any history of operations, and the `Reachable` contexts are
those that come of a fresh one by operations and by rearming. What one operation may do to the phase
of a node is said once, by `Phase.Becomes`.
-/

namespace Stepwise

/-- A change of one node that is asked for. It is made or refused. -/
inductive Transition where
  | start
  | complete (value : Json)
  | fail (error : String) (value : Json)
  | cancel (value : Json)

/-- What may be done to a context, but for rearming. -/
inductive Operation where
  | touch (id : String)
  | transit (id : String) (transition : Transition)
  | recordRetry (id : String)
  | cancelNode (id : String)
  | cancelRunning
  | cancelRunningIn (tree : Node)
  | setResult (id : String) (value : Json)
  | setVariable (name : String) (value : Json)
  | cancelToken

/-- The steps that a node takes from one state to another. -/
inductive NodeState.Moves : NodeState → NodeState → Prop
  | begins : Moves .pending .running
  | ends {state : NodeState} (terminal : state.isTerminal = true) : Moves .running state

namespace Phase

/-- What one operation may make of the record of a node: it stays, or the node starts, tries once
more or ends. -/
inductive Becomes (phase : Phase) : Phase → Prop
  | same : Becomes phase phase
  | starts (idle : phase.state = .pending) (now : Nat) : Becomes phase (phase.start now)
  | retries (runs : phase.state = .running) : Becomes phase phase.retry
  | ends (runs : phase.state = .running) (now : Nat) (ending : Ending) (result : Json) :
      Becomes phase (phase.finish now ending result)

variable {phase later : Phase}

theorem becomes_start (phase : Phase) (now : Nat) : phase.Becomes (phase.start now) := by
  by_cases idle : phase.state = .pending
  · exact .starts idle now
  · rw [start_of_ne idle]
    exact .same

theorem becomes_finish (phase : Phase) (now : Nat) (ending : Ending) (result : Json) :
    phase.Becomes (phase.finish now ending result) := by
  by_cases runs : phase.state = .running
  · exact .ends runs now ending result
  · rw [finish_of_ne runs]
    exact .same

theorem becomes_retry (phase : Phase) : phase.Becomes phase.retry := by
  by_cases runs : phase.state = .running
  · exact .retries runs
  · rw [retry_of_ne runs]
    exact .same

theorem Becomes.moves (h : phase.Becomes later) :
    Relation.ReflGen NodeState.Moves phase.state later.state := by
  cases h with
  | same => exact .refl
  | starts idle now =>
    rw [start_of_pending idle, idle]
    exact .single .begins
  | retries => rw [state_retry]
  | ends runs now ending result =>
    rw [finish_of_running runs, runs]
    exact .single (.ends (isTerminal_state ending))

/-- What has ended stays as it is. -/
theorem Becomes.eq_of_terminal (h : phase.Becomes later)
    (terminal : phase.state.isTerminal = true) :
    later = phase := by
  obtain ⟨begun, stopped⟩ := NodeState.isTerminal_iff.1 terminal
  cases h with
  | same => rfl
  | starts idle => exact absurd idle begun
  | retries runs | ends runs => exact absurd runs stopped

/-- No operation puts the fields of a record at odds with its state. -/
theorem Becomes.consistent (h : phase.Becomes later) (before : phase.Consistent) :
    later.Consistent := by
  cases h with
  | same => exact before
  | starts _ now => exact before.start now
  | retries => exact before.retry
  | ends _ now ending result => exact before.finish now ending result

end Phase

namespace Context

/-- Asks for a change of a node, and says whether it was made. -/
def transit (context : Context) (now : Nat) (id : String) : Transition → Bool × Context
  | .start => context.start now id
  | .complete value => context.finish now id .completed value
  | .fail error value => context.finish now id (.failed error) value
  | .cancel value => context.finish now id (Phase.cancelEnding value) value

end Context

/-- Does something to a context at some time. -/
def Operation.apply (now : Nat) (context : Context) : Operation → Context
  | .touch id => context.touch id
  | .transit id transition => (context.transit now id transition).2
  | .recordRetry id => context.recordRetry id
  | .cancelNode id => (context.cancelNode now id).2
  | .cancelRunning => (context.cancelRunning now).2
  | .cancelRunningIn tree => (context.cancelRunningIn now tree).2
  | .setResult id value => context.setResult id value
  | .setVariable name value => context.setVariable name value
  | .cancelToken => context.cancel

namespace Context

/-- One operation leads from one context to another. -/
inductive Operates (context : Context) : Context → Prop
  | step (now : Nat) (operation : Operation) : Operates context (operation.apply now context)

/-- Operations lead from one context to another. -/
abbrev Evolves : Context → Context → Prop := Relation.ReflTransGen Operates

/-- The contexts that come of a fresh one. -/
inductive Reachable : Context → Prop
  | fresh (workflowId executionId : String) (bindings : Table Json) :
      Reachable (.fresh workflowId executionId bindings)
  | operates {context : Context} (reachable : Reachable context) (now : Nat)
      (operation : Operation) : Reachable (operation.apply now context)
  | rearm {context : Context} (reachable : Reachable context) (tree : Node) :
      Reachable (context.rearm tree)

variable {context later : Context}

/-! ## Single operations -/

theorem phase_finish (context : Context) (now : Nat) (id other : String) (ending : Ending)
    (result : Json) : (context.finish now id ending result).2.phase other =
      if id = other then (context.phase other).finish now ending result else context.phase other := by
  rw [finish, phase_setPhase]
  split
  · next own => rw [own]
  · rfl

theorem becomes_halted (context : Context) (now : Nat) (id : String) :
    (context.phase id).Becomes (context.halted now id) := Phase.becomes_finish ..

theorem becomes_cancelAll (context : Context) (now : Nat) (ids : List String) (id : String) :
    (context.phase id).Becomes ((context.cancelAll now ids).2.phase id) := by
  rw [phase_cancelAll]
  split
  · exact context.becomes_halted now id
  · exact .same

theorem becomes_transit (context : Context) (now : Nat) (id other : String)
    (transition : Transition) :
    (context.phase other).Becomes ((context.transit now id transition).2.phase other) := by
  have finished (ending : Ending) (result : Json) :
      (context.phase other).Becomes ((context.finish now id ending result).2.phase other) := by
    rw [phase_finish]
    split
    · exact Phase.becomes_finish ..
    · exact .same
  cases transition with
  | start =>
    rw [transit, phase_start]
    split
    · exact Phase.becomes_start ..
    · exact .same
  | complete | fail | cancel => exact finished _ _

/-- What one operation makes of the phase of a node. -/
theorem Operates.becomes (h : context.Operates later) (id : String) :
    (context.phase id).Becomes (later.phase id) := by
  cases h with
  | step now operation =>
    cases operation with
    | touch other =>
      rw [Operation.apply, phase_touch]
      exact .same
    | transit other transition => exact context.becomes_transit now other id transition
    | recordRetry other =>
      rw [Operation.apply, phase_recordRetry]
      split
      · exact Phase.becomes_retry _
      · exact .same
    | cancelNode other =>
      rw [Operation.apply, phase_cancelNode]
      split
      · exact context.becomes_halted now id
      · exact .same
    | cancelRunning => exact context.becomes_cancelAll now _ id
    | cancelRunningIn tree => exact context.becomes_cancelAll now tree.ids id
    | setResult | setVariable | cancelToken => exact .same

/-- A change is said to be made if the state of the node changes, and one that is refused leaves
the node as it is. -/
theorem transit_iff (context : Context) (now : Nat) (id : String) (transition : Transition) :
    ((context.transit now id transition).1 = true ↔
        (context.transit now id transition).2.state id ≠ context.state id) ∧
      ((context.transit now id transition).1 = false →
        (context.transit now id transition).2.phase id = context.phase id) := by
  have finished (ending : Ending) (result : Json) :
      ((context.finish now id ending result).1 = true ↔
          (context.finish now id ending result).2.state id ≠ context.state id) ∧
        ((context.finish now id ending result).1 = false →
          (context.finish now id ending result).2.phase id = context.phase id) := by
    rw [state, phase_finish, if_pos rfl, finish, state]
    by_cases runs : (context.phase id).state = .running
    · have stops : ending.state ≠ .running :=
        (NodeState.isTerminal_iff.1 (Phase.isTerminal_state ending)).2
      simp [Phase.finish_of_running runs, runs, stops]
    · simp [Phase.finish_of_ne runs, runs]
  cases transition with
  | start =>
    rw [transit, state, phase_start, if_pos rfl, start, state]
    by_cases idle : (context.phase id).state = .pending
    · simp [Phase.start_of_pending idle, idle]
    · simp [Phase.start_of_ne idle, idle]
  | complete | fail | cancel => exact finished _ _

/-- Likewise for the cancellation of a node, which leaves the whole context as it is if it is
refused. -/
theorem cancelNode_iff (context : Context) (now : Nat) (id : String) :
    ((context.cancelNode now id).1 = true ↔
        (context.cancelNode now id).2.state id ≠ context.state id) ∧
      ((context.cancelNode now id).1 = false → (context.cancelNode now id).2 = context) := by
  by_cases running : context.state id = .running
  · have ended : (context.cancelNode now id).2.state id = .cancelled := by
      rw [state, phase_cancelNode, if_pos rfl, state_halted, if_pos running]
    rw [ended, running, cancelNode_of_running context running]
    simp
  · rw [cancelNode_of_ne context running]
    simp

/-! ## Histories -/

theorem find?_eq_phase {id : String} (begun : context.state id ≠ .pending) :
    context.nodes.find? id = some (context.phase id) := by
  rw [state, phase] at begun
  rw [phase]
  cases found : context.nodes.find? id with
  | none =>
    rw [found] at begun
    exact absurd rfl begun
  | some phase => rfl

/-- A node that is not pending is listed. -/
theorem mem_keys_of_ne {id : String} (begun : context.state id ≠ .pending) :
    id ∈ context.nodes.keys := by
  by_contra missing
  rw [Context.state, context.phase_of_notMem_keys missing] at begun
  exact begun rfl

/-- In every history each node goes its way from pending to running to an end. -/
theorem Evolves.moves (h : context.Evolves later) (id : String) :
    Relation.ReflTransGen NodeState.Moves (context.state id) (later.state id) := by
  induction h with
  | refl => exact .refl
  | tail _ step ih => exact ih.trans (step.becomes id).moves.to_reflTransGen

/-- What has ended stays as it is. -/
theorem Evolves.phase_eq (h : context.Evolves later) {id : String}
    (terminal : (context.state id).isTerminal = true) : later.phase id = context.phase id := by
  induction h with
  | refl => rfl
  | @tail middle later _ step ih =>
    have still : (middle.phase id).state.isTerminal = true := by
      rw [ih]
      exact terminal
    exact ((step.becomes id).eq_of_terminal still).trans ih

/-! ## Reachable contexts -/

theorem sorted_cancelNode (h : context.nodes.Sorted) (now : Nat) (id : String) :
    (context.cancelNode now id).2.nodes.Sorted := by
  unfold cancelNode
  split
  · exact h.insert ..
  · exact h

theorem sorted_cancelAll (h : context.nodes.Sorted) (now : Nat) (ids : List String) :
    (context.cancelAll now ids).2.nodes.Sorted := by
  induction ids generalizing context with
  | nil => exact h
  | cons id rest ih => exact ih (sorted_cancelNode h now id)

theorem sorted_rearm (h : context.nodes.Sorted) (node : Node) :
    (context.rearm node).nodes.Sorted := by
  rw [rearm]
  generalize node.ids = ids
  induction ids generalizing context with
  | nil => exact h
  | cons id rest ih => exact ih (h.insert id .pending)

theorem sorted_apply (h : context.nodes.Sorted) (now : Nat) (operation : Operation) :
    (operation.apply now context).nodes.Sorted := by
  cases operation with
  | touch | recordRetry => exact h.insert ..
  | transit id transition => cases transition <;> exact h.insert ..
  | cancelNode id => exact sorted_cancelNode h now id
  | cancelRunning => exact sorted_cancelAll h now _
  | cancelRunningIn tree => exact sorted_cancelAll h now _
  | setResult | setVariable | cancelToken => exact h

/-- A context lists its nodes in order, whatever was done to it. -/
theorem Reachable.sorted (h : context.Reachable) : context.nodes.Sorted := by
  induction h with
  | fresh => exact .nil
  | operates _ now operation ih => exact sorted_apply ih now operation
  | rearm _ tree ih => exact sorted_rearm ih tree

theorem phase_fresh (workflowId executionId : String) (bindings : Table Json) (id : String) :
    (fresh workflowId executionId bindings).phase id = .pending := rfl

/-- In a context that may come about the fields of each record go with its state. -/
theorem Reachable.consistent (h : context.Reachable) (id : String) :
    (context.phase id).Consistent := by
  induction h with
  | fresh workflowId executionId bindings =>
    rw [phase_fresh]
    exact .pending
  | operates _ now operation ih => exact ((Operates.step now operation).becomes id).consistent ih
  | rearm _ tree ih =>
    rw [phase_rearm]
    split
    · exact .pending
    · exact ih

/-- There is one record of each node that is listed, and its fields go with its state. -/
theorem Reachable.record_consistent (h : context.Reachable) {id : String} {phase : Phase}
    (member : (id, phase) ∈ context.nodes) :
    context.nodes.find? id = some phase ∧ phase.Consistent := by
  have found : context.nodes.find? id = some phase := h.sorted.find?_eq member
  have own : context.phase id = phase := by
    rw [Context.phase, found]
    rfl
  exact ⟨found, own ▸ h.consistent id⟩

/-- Each operation takes a node at most one step on, and no history changes a node that has ended;
changes are said to be made if and only if the state changes, and leave everything as it is if they
are refused; and every context that may come about has one record of each node that it lists, in
which all that is told goes with the state. -/
theorem lifecycle :
    (∀ {context later : Context}, context.Operates later → ∀ id,
      Relation.ReflGen NodeState.Moves (context.state id) (later.state id)) ∧
    (∀ {context later : Context}, context.Evolves later → ∀ id,
      Relation.ReflTransGen NodeState.Moves (context.state id) (later.state id) ∧
        ((context.state id).isTerminal = true →
          later.nodes.find? id = context.nodes.find? id)) ∧
    (∀ (context : Context) (now : Nat) (id : String),
      (∀ transition,
        ((context.transit now id transition).1 = true ↔
          (context.transit now id transition).2.state id ≠ context.state id) ∧
        ((context.transit now id transition).1 = false →
          (context.transit now id transition).2.phase id = context.phase id)) ∧
      ((context.cancelNode now id).1 = true ↔
        (context.cancelNode now id).2.state id ≠ context.state id) ∧
      ((context.cancelNode now id).1 = false → (context.cancelNode now id).2 = context)) ∧
    ∀ {context : Context}, context.Reachable → context.nodes.keys.Nodup ∧
      ∀ {id : String} {phase : Phase}, (id, phase) ∈ context.nodes →
        context.nodes.find? id = some phase ∧ phase.Consistent := by
  refine ⟨fun step id => (step.becomes id).moves, fun history id => ⟨history.moves id, ?_⟩,
    fun context now id => ⟨context.transit_iff now id, context.cancelNode_iff now id⟩,
    fun reachable => ⟨reachable.sorted.nodup_keys, reachable.record_consistent⟩⟩
  intro terminal
  have same := history.phase_eq terminal
  have begun {context : Context} (h : (context.state id).isTerminal = true) :
      context.state id ≠ .pending := (NodeState.isTerminal_iff.1 h).1
  rw [find?_eq_phase (begun terminal), find?_eq_phase (begun ?_), same]
  rw [state, same]
  exact terminal

/-- A failure that comes after the end of a node is refused. -/
theorem lifecycle_late :
    let begun := Operation.apply 1 (.fresh "workflow" "execution" []) (.transit "a" .start)
    let done := Operation.apply 2 begun (.transit "a" (.complete .null))
    let late := Operation.apply 3 done (.transit "a" (.fail "late" .null))
    begun.Operates done ∧ Relation.ReflGen NodeState.Moves (begun.state "a") (done.state "a") ∧
      done.Evolves late ∧ (done.state "a").isTerminal = true ∧
      late.nodes.find? "a" = done.nodes.find? "a" ∧
      (done.transit 3 "a" (.fail "late" .null)).1 = false ∧ late.phase "a" = done.phase "a" ∧
      late.Reachable ∧ late.nodes.keys.Nodup ∧
      ("a", .ended 1 2 0 .completed .null) ∈ late.nodes ∧
      late.nodes.find? "a" = some (.ended 1 2 0 .completed .null) ∧
      (Phase.ended 1 2 0 .completed .null).Consistent := by
  intro begun done late
  have step : begun.Operates done := .step 2 _
  have history : done.Evolves late := .single (.step 3 _)
  have terminal : (done.state "a").isTerminal = true := by decide
  have refused : (done.transit 3 "a" (.fail "late" .null)).1 = false := by decide
  have reachable : late.Reachable := .operates (.operates (.operates (.fresh ..) 1 _) 2 _) 3 _
  have listed : ("a", .ended 1 2 0 .completed .null) ∈ late.nodes := List.mem_cons_self
  obtain ⟨steps, histories, changes, told⟩ := lifecycle
  obtain ⟨distinct, records⟩ := told reachable
  exact ⟨step, steps step "a", history, terminal, (histories history "a").2 terminal, refused,
    ((changes done 3 "a").1 (.fail "late" .null)).2 refused, reachable, distinct, listed,
    records listed⟩

end Context

end Stepwise
