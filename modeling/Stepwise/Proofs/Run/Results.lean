import Stepwise.Proofs.Run.Schedule

/-!
# Results of nodes

A context accounts for its results if every node that has ended has its value among them, and if
they list no node that has not been started. Every act of a run keeps this, whichever way a node
ends: by its own outcome, with the lanes beside it, or with the whole run.
-/

namespace Stepwise

namespace Context

/-- The results of a context agree with the nodes in it, of which only some have been started. -/
structure Accounts (context : Context) (started : String → Prop) : Prop where
  consistent : ∀ id, (context.phase id).Consistent
  recorded : ∀ id value, (context.phase id).result? = some value →
    context.results.find? id = some value
  begun : ∀ id, context.state id ≠ .pending → started id
  listed : ∀ id ∈ context.results.keys, started id

namespace Accounts

variable {context : Context} {started : String → Prop}

/-- Of an empty context all is accounted for. -/
theorem fresh (nodes : context.nodes = []) (results : context.results = []) :
    context.Accounts started := by
  have pending := context.phase_of_nodes nodes
  refine ⟨fun id => ?_, fun id value h => ?_, fun id h => ?_, fun id h => ?_⟩
  · rw [pending]
    exact .pending
  · rw [pending] at h
    cases h
  · rw [state, pending] at h
    exact absurd rfl h
  · rw [results] at h
    cases h

/-- What is accounted for by some starts is so by more. -/
theorem mono (h : context.Accounts started) {more : String → Prop}
    (subset : ∀ id, started id → more id) : context.Accounts more :=
  ⟨h.consistent, h.recorded, fun id touched => subset id (h.begun id touched),
    fun id member => subset id (h.listed id member)⟩

/-- A node may come to a phase that shows no other value than before. -/
theorem setPhase (h : context.Accounts started) {id : String} {phase : Phase}
    (consistent : phase.Consistent)
    (result : ∀ value, phase.result? = some value → (context.phase id).result? = some value)
    (begun : phase.state ≠ .pending → started id) : (context.setPhase id phase).Accounts started := by
  refine ⟨fun other => ?_, fun other value shown => ?_, fun other touched => ?_, h.listed⟩
  · rw [phase_setPhase]
    split
    · exact consistent
    · exact h.consistent other
  · rw [phase_setPhase] at shown
    split at shown
    · next same => exact h.recorded other value (same ▸ result value shown)
    · exact h.recorded other value shown
  · rw [state, phase_setPhase] at touched
    split at touched
    · next same => exact same ▸ begun touched
    · exact h.begun other touched

theorem start (h : context.Accounts started) {id : String} (begun : started id) (now : Nat) :
    (context.start now id).2.Accounts started :=
  h.setPhase ((h.consistent id).start now)
    (fun _ shown => (Phase.result?_start ..).symm.trans shown) fun _ => begun

theorem touch (h : context.Accounts started) (id : String) : (context.touch id).Accounts started :=
  h.setPhase (h.consistent id) (fun _ shown => shown) (h.begun id)

theorem recordRetry (h : context.Accounts started) (id : String) :
    (context.recordRetry id).Accounts started := by
  refine h.setPhase (h.consistent id).retry
    (fun _ shown => (Phase.result?_retry _).symm.trans shown) fun touched => ?_
  rw [Phase.state_retry] at touched
  exact h.begun id touched

/-- A running node may end, with its value among the results. -/
theorem finish (h : context.Accounts started) {id : String} (running : context.state id = .running)
    (now : Nat) (ending : Ending) (value : Json) :
    ((context.setPhase id ((context.phase id).finish now ending value)).setResult id value).Accounts
      started := by
  have begun : started id := by
    refine h.begun id ?_
    rw [running]
    decide
  refine ⟨fun other => ?_, fun other shown result => ?_, fun other touched => ?_,
    fun other member => ?_⟩
  · rw [phase_setResult, phase_setPhase]
    split
    · exact (h.consistent id).finish now ending value
    · exact h.consistent other
  · rw [phase_setResult, phase_setPhase] at result
    simp only [setResult, Table.find?_insert]
    split
    · next same =>
      rw [if_pos same, Phase.result?_finish running] at result
      exact result
    · next other =>
      rw [if_neg other] at result
      exact h.recorded _ _ result
  · rw [state, phase_setResult, phase_setPhase] at touched
    split at touched
    · next same => exact same ▸ begun
    · exact h.begun other touched
  · obtain ⟨entry, inside, rfl⟩ := List.mem_map.1 member
    rcases Table.mem_insert inside with rfl | inside
    · exact begun
    · exact h.listed _ (List.mem_map_of_mem inside)

/-- A node that is cancelled has its value among the results. -/
theorem cancelNode (h : context.Accounts started) (now : Nat) (id : String) :
    (context.cancelNode now id).2.Accounts started := by
  by_cases running : context.state id = .running
  · rw [context.cancelNode_of_running running]
    exact h.finish running now _ _
  · rw [context.cancelNode_of_ne running]
    exact h

theorem cancelAll (h : context.Accounts started) (now : Nat) (ids : List String) :
    (context.cancelAll now ids).2.Accounts started := by
  induction ids generalizing context with
  | nil => exact h
  | cons id rest ih => exact ih (h.cancelNode now id)

/-- What is rearmed has no result to account for. -/
theorem rearm (h : context.Accounts started) (node : Node) :
    (context.rearm node).Accounts started := by
  rw [Context.rearm]
  generalize node.ids = ids
  induction ids generalizing context with
  | nil => exact h
  | cons id rest ih =>
    refine ih (h.setPhase .pending (fun value shown => ?_) fun touched => absurd rfl touched)
    cases shown

end Accounts

end Context

/-- A log tells that a node has started, in an event that is not among the first ones. -/
def EventLog.TellsStart (log : EventLog) (since : Nat) (id : String) : Prop :=
  ∃ entry ∈ log.entries.drop since, ∃ type, entry.event = .nodeStarted id type

/-- Once told, a start has been told. -/
theorem EventLog.TellsStart.emit {log : EventLog} {since : Nat} {id : String}
    (h : log.TellsStart since id) (time : Nat) (event : Event) :
    (log.emit time event).TellsStart since id := by
  obtain ⟨entry, member, tells⟩ := h
  refine ⟨entry, ?_, tells⟩
  rw [EventLog.emit, List.drop_append]
  exact List.mem_append_left _ member

/-- A start is told when it is emitted. -/
theorem EventLog.tellsStart_emit {log : EventLog} {since : Nat} (le : since ≤ log.size) (time : Nat)
    (id : String) (type : NodeType) : (log.emit time (.nodeStarted id type)).TellsStart since id := by
  refine ⟨⟨log.size, time, .nodeStarted id type⟩, ?_, type, rfl⟩
  rw [EventLog.emit, List.drop_append_of_le_length le]
  exact List.mem_append_right _ List.mem_cons_self

namespace RunState

/-- The results of a run agree with its nodes, of which only those of some ids have been started,
and each start has been told since the log had some size. -/
structure Accounts (s : RunState) (since : Nat) (ids : List String) : Prop where
  opened : since ≤ s.world.log.size
  context : s.context.Accounts fun id => id ∈ ids ∧ s.world.log.TellsStart since id

namespace Accounts

variable {s : RunState} {since : Nat} {ids : List String}

theorem emit (h : s.Accounts since ids) (event : Event) : (s.emit event).Accounts since ids := by
  refine ⟨Nat.le_trans h.opened ?_, h.context.mono fun id started => ⟨started.1, started.2.emit _ _⟩⟩
  simp only [RunState.emit, World.emit, EventLog.size, EventLog.emit, List.length_append]
  exact Nat.le_add_right _ _

theorem setContext (h : s.Accounts since ids) {context : Context}
    (accounts : context.Accounts fun id => id ∈ ids ∧ s.world.log.TellsStart since id) :
    RunState.Accounts { s with context := context } since ids := ⟨h.opened, accounts⟩

/-- A node that starts accounts for itself. -/
theorem startNode (h : s.Accounts since ids) {node : Node} (member : node.id ∈ ids) :
    (s.startNode node).Accounts since ids := by
  have told := h.emit (.nodeStarted node.id node.kind.nodeType)
  refine told.setContext (told.context.start ⟨member, ?_⟩ s.now)
  exact EventLog.tellsStart_emit h.opened s.now node.id node.kind.nodeType

/-- However a node ends, its value is among the results from then on. -/
theorem record (h : s.Accounts since ids) (id : String) (outcome : Except Fault Json) :
    (s.record id outcome).Accounts since ids := by
  have finished (running : s.context.state id = .running) (ending : Ending) (value : Json)
      (event : Event) : (RunState.emit { s with context :=
        (s.context.finish s.now id ending value).2.setResult id value } event).Accounts since ids :=
    (h.setContext (h.context.finish running s.now ending value)).emit event
  have idle (other : s.context.state id ≠ .running) (ending : Ending) (value : Json) :
      RunState.Accounts { s with context := (s.context.finish s.now id ending value).2 } since ids := by
    refine h.setContext (h.context.setPhase ((h.context.consistent id).finish s.now ending value)
      (fun value shown => ?_) fun touched => ?_)
    · rw [Phase.finish_of_ne other] at shown
      exact shown
    · rw [Phase.finish_of_ne other] at touched
      exact h.context.begun id touched
  by_cases running : s.context.state id = .running
  · have runs : (s.context.phase id).state = .running := running
    cases outcome with
    | ok value =>
      simp only [RunState.record, Context.finish, runs, decide_true]
      exact finished running .completed value _
    | error fault =>
      simp only [RunState.record]
      split
      · rw [s.context.cancelNode_of_running running]
        exact (h.setContext (h.context.finish running s.now _ _)).emit _
      · simp only [Context.finish, runs, decide_true]
        exact finished running _ _ _
  · have other : (s.context.phase id).state ≠ .running := running
    cases outcome with
    | ok value =>
      simp only [RunState.record, Context.finish, other, decide_false]
      exact idle running .completed value
    | error fault =>
      simp only [RunState.record]
      split
      · rw [s.context.cancelNode_of_ne running]
        exact h
      · simp only [Context.finish, other, decide_false]
        exact idle running _ _

/-- Rearming keeps the accounts. -/
theorem rearm (h : s.Accounts since ids) (nodes : List Node) :
    (s.rearm nodes).Accounts since ids := by
  refine h.setContext ?_
  have accounts := h.context
  revert accounts
  generalize s.context = context
  intro accounts
  induction nodes generalizing context with
  | nil => exact accounts
  | cons node rest ih => exact ih _ (accounts.rearm node)

/-- The sweep of a block keeps the accounts. -/
theorem sweep (h : s.Accounts since ids) (nodes : List Node) :
    (s.sweep nodes).Accounts since ids := by
  induction nodes generalizing s with
  | nil => exact h
  | cons node rest ih =>
    have swept := h.setContext (h.context.cancelAll s.now node.ids)
    simp only [RunState.sweep]
    split
    · exact ih (swept.emit _)
    · exact ih swept

theorem cancelExecution (h : s.Accounts since ids) : s.cancelExecution.Accounts since ids := by
  have cancelled : s.context.cancel.Accounts fun id => id ∈ ids ∧ s.world.log.TellsStart since id :=
    ⟨h.context.consistent, h.context.recorded, h.context.begun, h.context.listed⟩
  exact h.setContext (cancelled.cancelAll s.now _)

theorem apply (h : s.Accounts since ids) (effect : Effect) :
    (s.apply effect).Accounts since ids := by
  cases effect with
  | setVariable | cancelToken =>
    exact h.setContext
      ⟨h.context.consistent, h.context.recorded, h.context.begun, h.context.listed⟩
  | cancelExecution => exact h.cancelExecution
  | cancelWorkflow id =>
    have asked : RunState.Accounts { s with
        world := { s.world with requests := s.world.requests ++ [id] } } since ids :=
      ⟨h.opened, h.context⟩
    simp only [RunState.apply]
    split
    · exact asked.cancelExecution
    · exact asked

/-- Whatever a call does keeps the accounts. -/
theorem applyAll (h : s.Accounts since ids) (effects : List Effect) :
    (s.applyAll effects).Accounts since ids := by
  induction effects generalizing s with
  | nil => exact h
  | cons effect rest ih => exact ih (h.apply effect)

theorem place (h : s.Accounts since ids) (engine : Engine) (caller : String) (call : Call) :
    (s.place engine caller call).2.Accounts since ids := ⟨h.opened, h.context⟩

/-- The results of a run agree with its nodes after every act. -/
theorem act {engine : Engine} {manner : Manner} {s' : RunState} (h : s.Accounts since ids)
    (act : Act engine manner ids s s') : s'.Accounts since ids := by
  cases act with
  | list => exact h.setContext (h.context.touch _)
  | begin live member => exact h.startNode member
  | call => exact (h.place ..).applyAll _
  | callLater | stray => exact h.place ..
  | note => exact ⟨h.opened, h.context⟩
  | affect effects => exact h.applyAll effects
  | retry => exact (h.setContext (h.context.recordRetry _)).emit _
  | wait => exact ⟨h.opened, h.context⟩
  | rearm live members => exact h.rearm _
  | record heeds member => exact h.record _ _
  | sweep members => exact h.sweep _

end Accounts

end RunState

namespace Run

/-- The results of a run agree with its nodes in every state that it reaches. -/
theorem Reaches.accounts {engine : Engine} {root : Node} {limit : Option Duration} {s₀ : RunState}
    {p : RunState × Stage} (h : Reaches engine root limit s₀ p) (distinct : root.ids.Nodup)
    (nodes : s₀.context.nodes = []) (results : s₀.context.results = []) :
    p.1.Accounts s₀.world.log.size root.ids := by
  have initial : s₀.Accounts s₀.world.log.size root.ids :=
    ⟨Nat.le_refl _, .fresh nodes results⟩
  exact h.invariant (fun s => s.Accounts s₀.world.log.size root.ids)
    (s₀.context.untouched_of_nodes nodes root) distinct initial
    (fun _ _ accounts => ⟨accounts.opened, accounts.context⟩) fun _ _ act accounts =>
      accounts.act act

/-- In every state that a run reaches, every node that has ended has its value among the results;
every result is that of a node of the tree whose start has been told since the run began; and once
the run has ended no node runs. -/
theorem results_complete (engine : Engine) (root : Node) (limit : Option Duration) (s₀ : RunState)
    (distinct : root.ids.Nodup) (nodes : s₀.context.nodes = []) (results : s₀.context.results = [])
    {p : RunState × Stage} (h : Reaches engine root limit s₀ p) :
    (∀ id, (p.1.context.state id).isTerminal = true →
      ∃ value, (p.1.context.phase id).result? = some value ∧
        p.1.context.results.find? id = some value) ∧
    (∀ id ∈ p.1.context.results.keys, (∃ n ∈ root.preorder, n.id = id) ∧
      ∃ entry ∈ p.1.world.log.entries.drop s₀.world.log.size, ∃ type,
        entry.event = .nodeStarted id type) ∧
    (∀ outcome, p.2 = .ended outcome → ∀ id, p.1.context.state id ≠ .running) := by
  have accounts := h.accounts distinct nodes results
  refine ⟨fun id terminal => ?_, fun id member => ?_, fun outcome ended id running => ?_⟩
  · have valued := (accounts.context.consistent id).valued.2 terminal
    obtain ⟨value, shown⟩ := Option.isSome_iff_exists.1 valued
    exact ⟨value, shown, accounts.context.recorded id value shown⟩
  · obtain ⟨inside, told⟩ := accounts.context.listed id member
    exact ⟨Node.mem_ids.1 inside, told⟩
  · have sound := h.sound (s₀.context.untouched_of_nodes nodes root) distinct
    rw [ended] at sound
    cases sound with
    | ended settled _ =>
      refine settled.idle id (accounts.context.begun id ?_).1 running
      rw [running]
      decide

/-- Halfway through two tasks the first has its value among the results. -/
theorem results_complete_halfway : pair.ids.Nodup ∧ outset.context.nodes = [] ∧
    outset.context.results = [] ∧ Reaches slow pair none outset halfway ∧
    (halfway.1.context.state "first").isTerminal = true ∧
    ∃ value, (halfway.1.context.phase "first").result? = some value ∧
      halfway.1.context.results.find? "first" = some value := by
  have distinct : pair.ids.Nodup := by decide
  have terminal : (halfway.1.context.state "first").isTerminal = true := rfl
  refine ⟨distinct, rfl, rfl, reaches_halfway, terminal, ?_⟩
  exact (results_complete slow pair none outset distinct rfl rfl reaches_halfway).1 "first" terminal

end Run

end Stepwise
