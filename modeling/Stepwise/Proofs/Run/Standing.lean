import Stepwise.Proofs.Run.Advance

/-!
# Standings of nodes

What a context keeps of a node when times are left out: how far it has come, with its retries and
its error, and its result. In a run that is not cancelled a standing changes in three ways only: a
pending node begins, a running one tries again, and a running one is closed with its outcome.
Everything else that a run does leaves it as it is, and all of it keeps the tables in order.
-/

namespace Stepwise

namespace Phase

/-- A record without its times. -/
def timeless (phase : Phase) : Phase :=
  { phase with
    startedAt? := phase.startedAt?.map fun _ => 0
    endedAt? := phase.endedAt?.map fun _ => 0 }

variable (phase : Phase)

@[simp] theorem state_timeless : phase.timeless.state = phase.state := rfl

@[simp] theorem error?_timeless : phase.timeless.error? = phase.error? := rfl

@[simp] theorem retries_timeless : phase.timeless.retries = phase.retries := rfl

/-- Only the time of a start depends on the clock. -/
theorem timeless_start (now : Nat) : (phase.start now).timeless = phase.timeless.start 0 := by
  by_cases idle : phase.state = .pending
  · have still : phase.timeless.state = .pending := idle
    rw [start_of_pending idle, start_of_pending still]
    rfl
  · have still : phase.timeless.state ≠ .pending := idle
    rw [start_of_ne idle, start_of_ne still]

theorem timeless_retry : phase.retry.timeless = phase.timeless.retry := by
  by_cases runs : phase.state = .running
  · have still : phase.timeless.state = .running := runs
    rw [retry_of_running runs, retry_of_running still]
    rfl
  · have still : phase.timeless.state ≠ .running := runs
    rw [retry_of_ne runs, retry_of_ne still]

/-- Only the time of an end depends on the clock. -/
theorem timeless_finish (now : Nat) (ending : Ending) (result : Json) :
    (phase.finish now ending result).timeless = phase.timeless.finish 0 ending result := by
  by_cases runs : phase.state = .running
  · have still : phase.timeless.state = .running := runs
    rw [finish_of_running runs, finish_of_running still]
    rfl
  · have still : phase.timeless.state ≠ .running := runs
    rw [finish_of_ne runs, finish_of_ne still]

end Phase

/-- How far a node has come and its result, without times. -/
structure Standing where
  phase : Phase
  result : Option Json

namespace Standing

variable (standing : Standing)

/-- A node begins. -/
def begin : Standing := { standing with phase := standing.phase.start 0 }

/-- A node tries once more. -/
def again : Standing := { standing with phase := standing.phase.retry }

/-- How a node ends that is not cancelled. -/
def ending : Except Fault Json → Ending
  | .ok _ => .completed
  | .error fault => .failed fault.message

/-- What is kept of the outcome of a node. -/
def kept (id : String) : Except Fault Json → Json
  | .ok value => value
  | .error fault => fault.value id

/-- The standing of a node of an id with its outcome, if it runs. -/
def close (id : String) (outcome : Except Fault Json) : Standing :=
  if standing.phase.state = .running then
    ⟨standing.phase.finish 0 (ending outcome) (kept id outcome), some (kept id outcome)⟩
  else standing

end Standing

namespace Context

variable (context : Context)

/-- How far a node has come and its result. -/
def standing (id : String) : Standing := ⟨(context.phase id).timeless, context.results.find? id⟩

/-- Nodes and results are listed by their ids. -/
structure Tidy : Prop where
  nodes : context.nodes.Sorted
  results : context.results.Sorted

variable {context} {later : Context} {id : String}

/-- What does not look at times is the same of nodes in the same standing. -/
theorem read_of_standing {α : Type} {read : Phase → α}
    (blind : ∀ phase, read phase.timeless = read phase)
    (same : context.standing id = later.standing id) :
    read (context.phase id) = read (later.phase id) := by
  rw [← blind (context.phase id), ← blind (later.phase id)]
  exact congrArg (fun standing => read standing.phase) same

theorem Tidy.setPhase (h : context.Tidy) (id : String) (phase : Phase) :
    (context.setPhase id phase).Tidy := ⟨h.nodes.insert .., h.results⟩

theorem Tidy.setResult (h : context.Tidy) (id : String) (value : Json) :
    (context.setResult id value).Tidy := ⟨h.nodes, h.results.insert ..⟩

end Context

namespace RunState

variable (s : RunState)

/-- The standing of a node that starts is begun. -/
theorem standing_startNode (node : Node) (id : String) : (s.startNode node).context.standing id =
    if node.id = id then (s.context.standing id).begin else s.context.standing id := by
  rw [Context.standing, phase_startNode]
  split
  · rw [Phase.timeless_start]
    rfl
  · rfl

/-- The standing of a node that is tried again has one more attempt. -/
theorem standing_retry (id other : String) (attempt : Nat) (fault : Fault) :
    (s.retry id attempt fault).context.standing other =
      if id = other then (s.context.standing other).again else s.context.standing other := by
  rw [Context.standing, phase_retry]
  split
  · rw [Phase.timeless_retry]
    rfl
  · rfl

/-- How the end of a node is recorded that is not cancelled. -/
theorem context_record (id : String) {outcome : Except Fault Json} (plain : Run.Plain outcome) :
    (s.record id outcome).context =
      if s.context.state id = .running then
        (s.context.finish s.now id (Standing.ending outcome) (Standing.kept id outcome)).2.setResult
          id (Standing.kept id outcome)
      else (s.context.finish s.now id (Standing.ending outcome) (Standing.kept id outcome)).2 := by
  have finished (ending : Ending) (value : Json) : s.context.finish s.now id ending value =
      (decide (s.context.state id = .running), (s.context.finish s.now id ending value).2) := rfl
  cases outcome with
  | ok value =>
    rw [record, finished]
    by_cases running : s.context.state id = .running
    · rw [decide_eq_true running, if_pos running]
      rfl
    · rw [decide_eq_false running, if_neg running]
      rfl
  | error fault =>
    have other : ¬fault.isCancelled = true := ne_true_of_eq_false (plain fault rfl)
    rw [record, if_neg other]
    dsimp only
    rw [finished]
    by_cases running : s.context.state id = .running
    · rw [decide_eq_true running, if_pos running]
      rfl
    · rw [decide_eq_false running, if_neg running]
      rfl

/-- The end of a node is recorded as its standing tells. -/
theorem standing_record (id other : String) {outcome : Except Fault Json}
    (plain : Run.Plain outcome) : (s.record id outcome).context.standing other =
      if id = other then (s.context.standing other).close id outcome
      else s.context.standing other := by
  have phase (ending : Ending) (value : Json) :
      (s.context.finish s.now id ending value).2.phase other =
        if id = other then (s.context.phase id).finish s.now ending value
        else s.context.phase other := s.context.phase_setPhase ..
  rw [context_record s id plain]
  by_cases running : s.context.state id = .running
  · rw [if_pos running]
    by_cases same : id = other
    · subst same
      have own : (s.context.standing id).phase.state = .running :=
        (Phase.state_timeless _).trans running
      rw [Standing.close, if_pos own, if_pos rfl, Context.standing, Context.phase_setResult, phase,
        if_pos rfl, Phase.timeless_finish]
      exact congrArg _ (Table.find?_insert_self ..)
    · rw [if_neg same, Context.standing, Context.phase_setResult, phase, if_neg same]
      exact congrArg _ (Table.find?_insert_of_ne _ _ same)
  · rw [if_neg running, Context.standing, phase, Phase.finish_of_ne running]
    by_cases same : id = other
    · subst same
      have own : ¬(s.context.standing id).phase.state = .running :=
        fun h => running ((Phase.state_timeless _).symm.trans h)
      rw [Standing.close, if_neg own, if_pos rfl, if_pos rfl]
      rfl
    · rw [if_neg same, if_neg same]
      rfl

theorem tidy_record (h : s.context.Tidy) (id : String) {outcome : Except Fault Json}
    (plain : Run.Plain outcome) : (s.record id outcome).context.Tidy := by
  rw [context_record s id plain]
  split
  · exact (h.setPhase _ _).setResult _ _
  · exact h.setPhase _ _

/-- What an answer does to a run that it does not cancel changes no more than variables. -/
theorem context_apply (effect : Effect) (live : (s.apply effect).context.cancelled = false) :
    ∃ bindings, (s.apply effect).context = { s.context with bindings := bindings } := by
  cases effect with
  | setVariable name value => exact ⟨_, rfl⟩
  | cancelToken => cases live
  | cancelExecution => rw [apply, cancelled_cancelExecution] at live; cases live
  | cancelWorkflow id =>
    simp only [apply] at live ⊢
    split at live
    · rw [cancelled_cancelExecution] at live
      cases live
    · next other => rw [if_neg other]; exact ⟨_, rfl⟩

/-- A call that does not cancel a run may only bind its variables. -/
theorem context_applyAll (effects : List Effect)
    (live : (s.applyAll effects).context.cancelled = false) :
    ∃ bindings, (s.applyAll effects).context = { s.context with bindings := bindings } := by
  induction effects generalizing s with
  | nil => exact ⟨_, rfl⟩
  | cons effect rest ih =>
    obtain ⟨later, same⟩ := ih (s.apply effect) live
    have first : (s.apply effect).context.cancelled = false := by
      rw [applyAll, List.foldl_cons, ← applyAll, cancelled_applyAll, Bool.or_eq_false_iff] at live
      exact live.1
    obtain ⟨bindings, before⟩ := s.context_apply effect first
    refine ⟨later, ?_⟩
    rw [applyAll, List.foldl_cons, ← applyAll, same, before]

end RunState

namespace Run

/-- From one state to another, nodes of other ids keep their standings, and tables their order. -/
structure Within (ids : List String) (s s' : RunState) : Prop where
  apart : ∀ id, id ∉ ids → s'.context.standing id = s.context.standing id
  tidy : s.context.Tidy → s'.context.Tidy

namespace Within

variable {ids more : List String} {s s' s'' : RunState}

/-- A change of variables is within any nodes. -/
theorem of_context {bindings : Table Json}
    (same : s'.context = { s.context with bindings := bindings }) : Within ids s s' := by
  refine ⟨fun id _ => ?_, fun tidy => ?_⟩
  · rw [same]
    rfl
  · rw [same]
    exact ⟨tidy.nodes, tidy.results⟩

theorem of_eq (same : s'.context = s.context) : Within ids s s' :=
  ⟨fun id _ => by rw [same], fun tidy => same ▸ tidy⟩

theorem refl (s : RunState) : Within ids s s := .of_eq rfl

/-- What is within some nodes twice is within them. -/
theorem trans (first : Within ids s s') (second : Within ids s' s'') : Within ids s s'' :=
  ⟨fun id other => (second.apart id other).trans (first.apart id other),
    fun tidy => second.tidy (first.tidy tidy)⟩

theorem mono (h : Within ids s s') (subset : ids ⊆ more) : Within more s s' :=
  ⟨fun id other => h.apart id fun member => other (subset member), h.tidy⟩

theorem startNode {node : Node} (member : node.id ∈ ids) : Within ids s (s.startNode node) := by
  refine ⟨fun id other => ?_, fun tidy => tidy.setPhase ..⟩
  rw [s.standing_startNode, if_neg]
  rintro rfl
  exact other member

theorem retry {id : String} {attempt : Nat} {fault : Fault} (member : id ∈ ids) :
    Within ids s (s.retry id attempt fault) := by
  refine ⟨fun other apart => ?_, fun tidy => tidy.setPhase ..⟩
  rw [s.standing_retry, if_neg]
  rintro rfl
  exact apart member

/-- A node that ends is within any nodes that it is one of. -/
theorem record {id : String} {outcome : Except Fault Json} (member : id ∈ ids)
    (plain : Plain outcome) : Within ids s (s.record id outcome) := by
  refine ⟨fun other apart => ?_, fun tidy => s.tidy_record tidy id plain⟩
  rw [s.standing_record id other plain, if_neg]
  rintro rfl
  exact apart member

theorem applyAll {effects : List Effect} (live : (s.applyAll effects).context.cancelled = false) :
    Within ids s (s.applyAll effects) := by
  obtain ⟨bindings, same⟩ := s.context_applyAll effects live
  exact .of_context same

end Within

end Run

end Stepwise
