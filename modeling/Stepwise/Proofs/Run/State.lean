import Stepwise.Run.World
import Stepwise.Proofs.Context.State

/-!
# States of runs

What each operation of a run does to the phases of nodes, to the cancellation of the run, and to
what runs share. What an answer does leaves every phase as it is, or halts all nodes of a run that
is cancelled from then on.
-/

namespace Stepwise

/-- Whether an effect cancels the run of an execution. -/
def Effect.cancels (executionId : String) : Effect → Bool
  | .setVariable .. => false
  | .cancelToken => true
  | .cancelExecution => true
  | .cancelWorkflow id => id = executionId

namespace RunState

variable (s : RunState)

@[simp] theorem phase_touch (id other : String) :
    (s.touch id).context.phase other = s.context.phase other := s.context.phase_touch id other

/-- Only the node that starts has another record then. -/
theorem phase_startNode (node : Node) (id : String) : (s.startNode node).context.phase id =
    if node.id = id then (s.context.phase id).start s.now else s.context.phase id :=
  s.context.phase_start s.now node.id id

theorem phase_retry (id other : String) (attempt : Nat) (fault : Fault) :
    (s.retry id attempt fault).context.phase other =
      if id = other then (s.context.phase other).retry else s.context.phase other :=
  s.context.phase_recordRetry id other

/-! ## The end of a node -/

/-- The phase in which its outcome leaves a node. -/
def closed (id : String) : Except Fault Json → Phase
  | .ok value => (s.context.phase id).finish s.now .completed value
  | .error fault =>
    if fault.isCancelled then s.context.halted s.now id
    else (s.context.phase id).finish s.now (.failed fault.message) (fault.value id)

/-- Apart from the phase of the node and its result, only an event is new. -/
theorem record_eq (id : String) (outcome : Except Fault Json) :
    ∃ context log, s.record id outcome = ⟨{ s.world with log := log }, context⟩ ∧
      context.cancelled = s.context.cancelled ∧ ∀ other,
        context.phase other = if id = other then s.closed id outcome else s.context.phase other := by
  have finished (ending : Ending) (value : Json) (other : String) :
      (s.context.finish s.now id ending value).2.phase other =
        if id = other then (s.context.phase id).finish s.now ending value
        else s.context.phase other := s.context.phase_setPhase ..
  cases outcome with
  | ok value =>
    simp only [record]
    split <;> next heq =>
      have heq := congrArg Prod.snd heq
      subst heq
      exact ⟨_, _, rfl, rfl, finished .completed value⟩
  | error fault =>
    simp only [record, closed]
    by_cases hfault : fault.isCancelled
    · simp only [hfault, if_true]
      split <;> next heq =>
        have heq := congrArg Prod.snd heq
        subst heq
        refine ⟨_, _, rfl, s.context.cancelled_cancelNode s.now id, fun other => ?_⟩
        rw [Context.phase_cancelNode]
        split
        · next h => rw [h]
        · rfl
    · simp only [hfault, Bool.false_eq_true, if_false]
      split <;> next heq =>
        have heq := congrArg Prod.snd heq
        subst heq
        exact ⟨_, _, rfl, rfl, finished (.failed fault.message) (fault.value id)⟩

/-- Only the node that ends has another record then. -/
theorem phase_record (id other : String) (outcome : Except Fault Json) :
    (s.record id outcome).context.phase other =
      if id = other then s.closed id outcome else s.context.phase other := by
  obtain ⟨context, log, heq, -, phases⟩ := s.record_eq id outcome
  rw [heq]
  exact phases other

@[simp] theorem cancelled_record (id : String) (outcome : Except Fault Json) :
    (s.record id outcome).context.cancelled = s.context.cancelled := by
  obtain ⟨context, log, heq, cancelled, -⟩ := s.record_eq id outcome
  rw [heq]
  exact cancelled

@[simp] theorem calls_record (id : String) (outcome : Except Fault Json) :
    (s.record id outcome).world.calls = s.world.calls := by
  obtain ⟨context, log, heq, -⟩ := s.record_eq id outcome
  rw [heq]

@[simp] theorem openings_record (id : String) (outcome : Except Fault Json) :
    (s.record id outcome).world.openings = s.world.openings := by
  obtain ⟨context, log, heq, -⟩ := s.record_eq id outcome
  rw [heq]

@[simp] theorem tickets_record (id : String) (outcome : Except Fault Json) :
    (s.record id outcome).world.tickets = s.world.tickets := by
  obtain ⟨context, log, heq, -⟩ := s.record_eq id outcome
  rw [heq]

/-- The end of a node leaves the results of all others as they are. -/
theorem results_record_of_ne {id other : String} (apart : id ≠ other)
    (outcome : Except Fault Json) :
    (s.record id outcome).context.results.find? other = s.context.results.find? other := by
  have idle {ending : Ending} {value : Json} {context : Context} {done : Bool}
      (heq : s.context.finish s.now id ending value = (done, context)) :
      context.results.find? other = s.context.results.find? other := by
    cases heq
    rfl
  cases outcome with
  | ok value =>
    simp only [record]
    split
    · next heq => exact (Table.find?_insert_of_ne _ _ apart).trans (idle heq)
    · next heq => exact idle heq
  | error fault =>
    have cancelled := s.context.results_cancelNode s.now id other
    rw [if_neg fun both => apart both.1] at cancelled
    simp only [record]
    split
    · split <;> next heq =>
        rw [heq] at cancelled
        exact cancelled
    · split
      · next heq => exact (Table.find?_insert_of_ne _ _ apart).trans (idle heq)
      · next heq => exact idle heq

/-- The retries of a node are still known when it has ended. -/
theorem retries_closed (id : String) (outcome : Except Fault Json) :
    (s.closed id outcome).retries = (s.context.phase id).retries := by
  cases outcome with
  | ok value => exact Phase.retries_finish ..
  | error fault =>
    simp only [closed]
    split
    · exact Phase.retries_finish ..
    · exact Phase.retries_finish ..

/-- The state in which its outcome leaves a running node. -/
theorem state_closed {id : String} (h : s.context.state id = .running)
    (outcome : Except Fault Json) :
    (s.closed id outcome).state =
      match outcome with
      | .ok _ => .completed
      | .error fault => if fault.isCancelled then .cancelled else .failed := by
  cases outcome with
  | ok value => exact (Phase.state_finish ..).trans (if_pos h)
  | error fault =>
    simp only [closed]
    split
    · exact (s.context.state_halted s.now id).trans (if_pos h)
    · exact (Phase.state_finish ..).trans (if_pos h)

/-- A node that does not run stays as it is. -/
theorem closed_of_ne {id : String} (h : s.context.state id ≠ .running)
    (outcome : Except Fault Json) :
    s.closed id outcome = s.context.phase id := by
  cases outcome with
  | ok value => exact Phase.finish_of_ne h ..
  | error fault =>
    simp only [closed]
    split
    · exact s.context.halted_of_ne h s.now
    · exact Phase.finish_of_ne h ..

/-! ## Trees -/

/-- Just the nodes of the trees are pending again. -/
theorem phase_rearm (nodes : List Node) (id : String) : (s.rearm nodes).context.phase id =
    if id ∈ Node.idsAll nodes then .pending else s.context.phase id := by
  rw [rearm]
  generalize s.context = context
  induction nodes generalizing context with
  | nil => rfl
  | cons node rest ih =>
    have := ih (context.rearm node)
    simp only [List.foldl_cons, Node.idsAll_cons, List.mem_append, Context.phase_rearm] at this ⊢
    rw [this]
    by_cases hrest : id ∈ Node.idsAll rest <;> simp [hrest]

@[simp] theorem cancelled_rearm (nodes : List Node) :
    (s.rearm nodes).context.cancelled = s.context.cancelled := by
  rw [rearm]
  generalize s.context = context
  induction nodes generalizing context with
  | nil => rfl
  | cons node rest ih => exact (ih _).trans (context.cancelled_rearm node)

/-- The first of some trees is swept first; of the events only the log knows. -/
theorem sweep_cons (node : Node) (rest : List Node) : ∃ log, s.sweep (node :: rest) =
    sweep ⟨{ s.world with log := log }, (s.context.cancelRunningIn s.now node).2⟩ rest := by
  simp only [sweep]
  split
  · exact ⟨_, rfl⟩
  · exact ⟨_, rfl⟩

/-- Apart from the phases and results of the nodes in some trees, only events are new. -/
theorem sweep_eq (nodes : List Node) :
    ∃ context log, s.sweep nodes = ⟨{ s.world with log := log }, context⟩ ∧
      context.cancelled = s.context.cancelled ∧ ∀ id, context.phase id =
        if id ∈ Node.idsAll nodes then s.context.halted s.now id else s.context.phase id := by
  induction nodes generalizing s with
  | nil => exact ⟨_, _, rfl, rfl, fun _ => rfl⟩
  | cons node rest ih =>
    let swept : RunState := { s with context := (s.context.cancelRunningIn s.now node).2 }
    obtain ⟨log, step⟩ := s.sweep_cons node rest
    obtain ⟨context, log, heq, cancelled, phases⟩ :=
      ih ⟨{ swept.world with log := log }, swept.context⟩
    refine ⟨context, log, step.trans heq, cancelled.trans ?_, fun id => ?_⟩
    · exact s.context.cancelled_cancelAll s.now node.ids
    · have halted : swept.context.halted s.now id = s.context.halted s.now id :=
        s.context.halted_cancelAll s.now node.ids id
      have phase : swept.context.phase id =
          if id ∈ node.ids then s.context.halted s.now id else s.context.phase id :=
        s.context.phase_cancelAll s.now node.ids id
      refine (phases id).trans ?_
      simp only [Node.idsAll_cons, List.mem_append]
      by_cases hrest : id ∈ Node.idsAll rest
      · simp only [hrest, or_true, if_true]
        exact halted
      · simpa [hrest] using phase

/-- In swept trees just those that were running are cancelled. -/
theorem phase_sweep (nodes : List Node) (id : String) : (s.sweep nodes).context.phase id =
    if id ∈ Node.idsAll nodes then s.context.halted s.now id else s.context.phase id := by
  obtain ⟨context, log, heq, -, phases⟩ := s.sweep_eq nodes
  rw [heq]
  exact phases id

/-- Of the nodes in some trees, those that run have the value of a cancelled node then. -/
theorem results_sweep (nodes : List Node) (id : String) :
    (s.sweep nodes).context.results.find? id =
      if id ∈ Node.idsAll nodes ∧ s.context.state id = .running then
        some (s.context.cancelledValue id)
      else s.context.results.find? id := by
  induction nodes generalizing s with
  | nil => simp [sweep, Node.idsAll]
  | cons node rest ih =>
    obtain ⟨log, step⟩ := s.sweep_cons node rest
    rw [step, ih]
    have first := s.context.results_cancelAll s.now node.ids id
    have phase := s.context.phase_cancelAll s.now node.ids id
    have executionId := s.context.executionId_cancelAll s.now node.ids
    rw [Context.cancelRunningIn]
    generalize (s.context.cancelAll s.now node.ids).2 = swept at first phase executionId ⊢
    have value : swept.cancelledValue id = s.context.cancelledValue id := by
      rw [Context.cancelledValue, executionId, Context.cancelledValue]
    simp only [value, first, Node.idsAll_cons, List.mem_append]
    by_cases hnode : id ∈ node.ids
    · rw [if_pos hnode] at phase
      have stopped : swept.state id ≠ .running := by
        rw [Context.state, phase]
        exact s.context.state_halted_ne s.now id
      rw [if_neg fun both => stopped both.2]
      simp [hnode]
    · rw [if_neg hnode] at phase
      have same : swept.state id = s.context.state id := congrArg Phase.state phase
      simp [hnode, same]

@[simp] theorem cancelled_sweep (nodes : List Node) :
    (s.sweep nodes).context.cancelled = s.context.cancelled := by
  obtain ⟨context, log, heq, cancelled, -⟩ := s.sweep_eq nodes
  rw [heq]
  exact cancelled

@[simp] theorem calls_sweep (nodes : List Node) : (s.sweep nodes).world.calls = s.world.calls := by
  obtain ⟨context, log, heq, -⟩ := s.sweep_eq nodes
  rw [heq]

@[simp] theorem openings_sweep (nodes : List Node) :
    (s.sweep nodes).world.openings = s.world.openings := by
  obtain ⟨context, log, heq, -⟩ := s.sweep_eq nodes
  rw [heq]

@[simp] theorem tickets_sweep (nodes : List Node) :
    (s.sweep nodes).world.tickets = s.world.tickets := by
  obtain ⟨context, log, heq, -⟩ := s.sweep_eq nodes
  rw [heq]

/-! ## Effects -/

/-- All that is running is cancelled with the execution. -/
theorem phase_cancelExecution (id : String) :
    s.cancelExecution.context.phase id = s.context.halted s.now id :=
  s.context.cancel.phase_cancelRunning s.now id

@[simp] theorem cancelled_cancelExecution : s.cancelExecution.context.cancelled = true :=
  s.context.cancel.cancelled_cancelAll s.now s.context.cancel.nodes.keys

@[simp] theorem executionId_cancelExecution :
    s.cancelExecution.context.executionId = s.context.executionId :=
  s.context.cancel.executionId_cancelAll s.now s.context.cancel.nodes.keys

/-- An effect leaves all phases as they are, or halts every node and cancels the run. -/
theorem phase_apply (effect : Effect) :
    (∀ id, (s.apply effect).context.phase id = s.context.phase id) ∨
      (s.apply effect).context.cancelled = true ∧
        ∀ id, (s.apply effect).context.phase id = s.context.halted s.now id := by
  cases effect with
  | setVariable name value => exact .inl fun _ => rfl
  | cancelToken => exact .inl fun _ => rfl
  | cancelExecution => exact .inr ⟨s.cancelled_cancelExecution, s.phase_cancelExecution⟩
  | cancelWorkflow id =>
    simp only [apply]
    split
    · exact .inr ⟨cancelled_cancelExecution _, phase_cancelExecution _⟩
    · exact .inl fun _ => rfl

@[simp] theorem executionId_apply (effect : Effect) :
    (s.apply effect).context.executionId = s.context.executionId := by
  cases effect with
  | setVariable name value => rfl
  | cancelToken => rfl
  | cancelExecution => exact s.executionId_cancelExecution
  | cancelWorkflow id =>
    simp only [apply]
    split
    · exact executionId_cancelExecution _
    · rfl

/-- A run is cancelled by a call that says so. -/
theorem cancelled_apply (effect : Effect) : (s.apply effect).context.cancelled =
    (s.context.cancelled || effect.cancels s.context.executionId) := by
  cases effect with
  | setVariable name value => exact (Bool.or_false _).symm
  | cancelToken => exact (Bool.or_true _).symm
  | cancelExecution => exact s.cancelled_cancelExecution.trans (Bool.or_true _).symm
  | cancelWorkflow id =>
    simp only [apply, Effect.cancels]
    split
    · next h => simp [h]
    · next h => simp [h]

@[simp] theorem calls_apply (effect : Effect) : (s.apply effect).world.calls = s.world.calls := by
  cases effect with
  | cancelWorkflow id =>
    simp only [apply]
    split <;> rfl
  | _ => rfl

@[simp] theorem tickets_apply (effect : Effect) :
    (s.apply effect).world.tickets = s.world.tickets := by
  cases effect with
  | cancelWorkflow id =>
    simp only [apply]
    split <;> rfl
  | _ => rfl

@[simp] theorem openings_apply (effect : Effect) :
    (s.apply effect).world.openings = s.world.openings := by
  cases effect with
  | cancelWorkflow id =>
    simp only [apply]
    split <;> rfl
  | _ => rfl

@[simp] theorem now_apply (effect : Effect) : (s.apply effect).now = s.now := by
  cases effect with
  | cancelWorkflow id =>
    simp only [apply]
    split <;> rfl
  | _ => rfl

@[simp] theorem calls_applyAll (effects : List Effect) :
    (s.applyAll effects).world.calls = s.world.calls := by
  induction effects generalizing s with
  | nil => rfl
  | cons effect rest ih => exact (ih _).trans (s.calls_apply effect)

@[simp] theorem tickets_applyAll (effects : List Effect) :
    (s.applyAll effects).world.tickets = s.world.tickets := by
  induction effects generalizing s with
  | nil => rfl
  | cons effect rest ih => exact (ih _).trans (s.tickets_apply effect)

@[simp] theorem openings_applyAll (effects : List Effect) :
    (s.applyAll effects).world.openings = s.world.openings := by
  induction effects generalizing s with
  | nil => rfl
  | cons effect rest ih => exact (ih _).trans (s.openings_apply effect)

/-- Of several things that a call does one is enough to cancel the run. -/
theorem cancelled_applyAll (effects : List Effect) : (s.applyAll effects).context.cancelled =
    (s.context.cancelled || effects.any (Effect.cancels s.context.executionId)) := by
  induction effects generalizing s with
  | nil => exact (Bool.or_false _).symm
  | cons effect rest ih =>
    rw [applyAll, List.foldl_cons, ← applyAll, ih, cancelled_apply, executionId_apply, List.any_cons,
      Bool.or_assoc]

/-- Several effects leave all phases as they are, or halt every node and cancel the run. -/
theorem phase_applyAll (effects : List Effect) :
    (∀ id, (s.applyAll effects).context.phase id = s.context.phase id) ∨
      (s.applyAll effects).context.cancelled = true ∧
        ∀ id, (s.applyAll effects).context.phase id = s.context.halted s.now id := by
  induction effects generalizing s with
  | nil => exact .inl fun _ => rfl
  | cons effect rest ih =>
    have halted (id : String) :
        ((s.apply effect).context.halted (s.apply effect).now id) = s.context.halted s.now id := by
      rw [now_apply]
      rcases s.phase_apply effect with same | ⟨-, halts⟩
      · exact s.context.halted_congr (s.executionId_apply effect) (same id) s.now
      · exact s.context.halted_of_halted (halts id)
    rcases ih (s.apply effect) with same | ⟨cancelled, halts⟩
    · rcases s.phase_apply effect with first | ⟨cancelled, first⟩
      · exact .inl fun id => (same id).trans (first id)
      · refine .inr ⟨?_, fun id => (same id).trans (first id)⟩
        rw [applyAll, List.foldl_cons, ← applyAll, cancelled_applyAll, cancelled, Bool.true_or]
    · exact .inr ⟨cancelled, fun id => (halts id).trans (halted id)⟩

/-! ## What was put off -/

@[simp] theorem calls_flush : s.flush.world.calls = s.world.calls := calls_applyAll ..

@[simp] theorem tickets_flush : s.flush.world.tickets = s.world.tickets := tickets_applyAll ..

/-- Nothing is put off any more. -/
@[simp] theorem openings_flush : s.flush.world.openings = [] := openings_applyAll ..

/-- What was put off may cancel the run. -/
theorem cancelled_flush : s.flush.context.cancelled =
    (s.context.cancelled || s.world.openings.any (Effect.cancels s.context.executionId)) :=
  cancelled_applyAll ..

end RunState

end Stepwise
