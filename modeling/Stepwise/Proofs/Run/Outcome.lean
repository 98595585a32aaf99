import Stepwise.Proofs.Run.Blame
import Stepwise.Proofs.Run.Blocks
import Stepwise.Proofs.Run.Counts

/-!
# Outcomes of runs

What a run ends with travels up from the root, or comes from the time limit, while the root is
recorded in the context, where a cancellation from outside may have come first. The two agree in
every schedule (`outcome_agrees`). A run that is cancelled before it starts is the one case in which
the root is not recorded at all: it is listed and never starts.
-/

namespace Stepwise

namespace Context

variable (context : Context)

/-- A node is recorded as what it ended with. -/
def Records (node : Node) : Except Fault Json → Prop
  | .ok value => context.Yields node value
  | .error fault =>
    if fault.isCancelled then context.state node.id = .cancelled else context.Fails node fault

/-- The root of a run is recorded as the run ended. -/
inductive Reports (root : Node) : Except Fault RunResult → Prop
  | completed {output : Json} (yields : context.Yields root output) :
      Reports root (.ok (.ofContext context .completed output none))
  | cancelled {text : String} (state : context.state root.id = .cancelled) :
      Reports root (.ok (.ofContext context .cancelled .null (some text)))
  | failed {fault : Fault} (own : fault.ofNode = true) (fails : context.Fails root fault) :
      Reports root (.error fault)
  | late {millis : Nat} (state : context.state root.id = .cancelled)
      (dead : context.cancelled = true) : Reports root (.error (.workflowTimeout millis))

end Context

namespace Run

variable {engine : Engine} {root node : Node} {limit : Option Duration} {s s₀ : RunState}

/-! ## The record of a node -/

/-- A node whose end is recorded is recorded as what it ended with. If the run was cancelled in the
meantime, the node was so with it. -/
theorem records_close {p : RunState × Progress}
    (valued : (close node p).1.context.Valued node (close node p).2)
    (top : p.1.context.state node.id = .running ∨
      p.1.context.state node.id = .cancelled ∧ p.1.context.cancelled = true)
    {outcome : Except Fault Json} (ended : (close node p).2 = .ended outcome) :
    (close node p).1.context.Records node outcome := by
  obtain ⟨s, progress⟩ := p
  cases progress <;> cases ended
  cases outcome with
  | ok value => exact valued.agrees
  | error fault =>
    simp only [Context.Records]
    split
    · next cancelled =>
      have own : (s.record node.id (.error fault)).context.phase node.id =
          s.closed node.id (.error fault) := (s.phase_record ..).trans (if_pos rfl)
      refine (congrArg Phase.state own).trans ?_
      rcases top with running | ⟨state, -⟩
      · rw [s.state_closed running]
        exact if_pos cancelled
      · rw [s.closed_of_ne (by rw [state]; decide)]
        exact state
    · next plain => exact valued.agrees (eq_false_of_ne_true plain)

/-- A node that ends as it starts records its outcome. -/
theorem records_start (live : s.context.cancelled = false) (untouched : s.context.Untouched node)
    (distinct : node.ids.Nodup) {outcome : Except Fault Json}
    (ended : (start engine s node).2 = .ended outcome) :
    (start engine s node).1.context.Records node outcome := by
  have valued := valued_start engine node s untouched distinct
  rw [start_eq, if_neg (ne_true_of_eq_false live)] at ended valued ⊢
  have begun : (s.startNode node).context.cancelled = false := live
  have advance := advances_work node (fun child _ => advances_start engine child)
    (s.startNode node) begun
  have running := (s.startNode_of_untouched untouched distinct).1
  have alone := advance.acts.leftAlone (Node.id_notMem_children distinct)
  exact records_close valued (alone.running_or_cancelled running) ended

/-- A node that ends after a wait records its outcome. -/
theorem records_resume {live : NodeState} {activity : Activity} {bell : Bell}
    (fits : s.context.Fits live node activity) (alive : Alive s live)
    (aware : bell.Aware s.context.cancelled) (tallied : s.context.Tallied node)
    (holds : s.context.Holds node activity) (held : bell.ticket ∈ activity.tickets)
    (own : activity.tickets.Nodup) (distinct : node.ids.Nodup)
    {outcome : Except Fault Json} (ended : (resume engine bell s activity).2 = .ended outcome) :
    (resume engine bell s activity).1.context.Records node outcome := by
  have valued : (resume engine bell s activity).1.context.Valued node
      (resume engine bell s activity).2 :=
    valued_resume fits alive aware tallied holds held own distinct
  have advance : Advances engine (Node.idsAll node.children) s (goOn engine bell s activity) :=
    advances_goOn fits aware held own
  rw [resume_eq held, fits.node_eq] at ended valued ⊢
  exact records_close valued (alive.top fits advance.acts distinct) ended

/-! ## Schedules -/

/-- A stage of the run of a tree: it waits to end with a fault of its nodes at most, or it has
ended and its root is recorded as it did. -/
inductive Reported (root : Node) (s : RunState) : Stage → Prop
  | active {activity : Activity} {limit : Option TimeLimit} (owned : activity.Owned) :
      Reported root s (.active activity limit)
  | ended {outcome : Except Fault RunResult} (reports : s.context.Reports root outcome) :
      Reported root s (.ended outcome)

/-- The end of a step reports what the root has recorded. -/
theorem reported_ofProgress {limit : Option TimeLimit} {p : RunState × Progress}
    (owned : p.2.Owned)
    (records : ∀ outcome, p.2 = .ended outcome → p.1.context.Records root outcome) :
    Reported root (ofProgress limit p).1 (ofProgress limit p).2 := by
  obtain ⟨s, progress⟩ := p
  cases progress with
  | waiting activity => exact .active owned
  | ended outcome =>
    have records := records outcome rfl
    cases outcome with
    | ok output => exact .ended (.completed records)
    | error fault =>
      simp only [Context.Records] at records
      simp only [ofProgress, report]
      split at records
      · next cancelled =>
        rw [if_pos cancelled]
        exact .ended (.cancelled records)
      · next plain =>
        rw [if_neg plain]
        exact .ended (.failed owned records)

/-- When the time limit passes, the root runs still or has been cancelled before. -/
theorem reported_expire {limit : TimeLimit} {live : NodeState} {activity : Activity}
    (fits : s.context.Fits live root activity) (alive : Alive s live) :
    Reported root (expire limit s).1 (expire limit s).2 := by
  refine .ended (.late ?_ s.cancelled_cancelExecution)
  have phase : s.cancelExecution.context.phase root.id = s.context.halted s.now root.id :=
    s.phase_cancelExecution root.id
  refine (congrArg Phase.state phase).trans ((s.context.state_halted ..).trans ?_)
  rw [fits.state_eq]
  rcases alive with rfl | ⟨rfl, -⟩ <;> rfl

/-- A run that ends as it is launched reports what its root has recorded. -/
theorem reported_launch (live : s.context.cancelled = false) (untouched : s.context.Untouched root)
    (distinct : root.ids.Nodup) :
    Reported root (launch engine root limit s).1 (launch engine root limit s).2 :=
  reported_ofProgress (owned_start engine root s) fun _ => records_start live untouched distinct

section

variable {limit : Option TimeLimit} {live : NodeState} {activity : Activity}
  (owned : activity.Owned) (fits : s.context.Fits live root activity) (alive : Alive s live)
  (own : activity.tickets.Nodup) (tallied : s.context.Tallied root)
  (holds : s.context.Holds root activity) (distinct : root.ids.Nodup)

include owned fits alive own tallied holds distinct

theorem reported_resume_of_aware {bell : Bell} (aware : bell.Aware s.context.cancelled) :
    Reported root (ofProgress limit (resume engine bell s activity)).1
      (ofProgress limit (resume engine bell s activity)).2 := by
  by_cases held : bell.ticket ∈ activity.tickets
  · exact reported_ofProgress (owned_resume owned s) fun outcome =>
      records_resume fits alive aware tallied holds held own distinct
  · rw [resume_of_notMem held]
    exact .active owned

/-- A run that ends after a wait reports what its root has recorded. -/
theorem reported_resume (bell : Bell) :
    Reported root (ofProgress limit (resume engine bell s activity)).1
      (ofProgress limit (resume engine bell s activity)).2 := by
  by_cases aware : bell.Aware s.context.cancelled
  · exact reported_resume_of_aware owned fits alive own tallied holds distinct aware
  · obtain ⟨ticket, deaf⟩ := bell
    obtain ⟨dead, deafness⟩ := Bell.not_aware aware
    subst deafness
    have kept : (resume engine ⟨ticket, true⟩ s activity).2.Owned := owned_resume owned s
    have unheard := unheard_resume engine ticket fits own dead
    generalize resume engine ⟨ticket, true⟩ s activity = p at kept unheard
    cases unheard with
    | same =>
      exact reported_resume_of_aware owned fits alive own tallied holds distinct fun _ => rfl
    | @atOnce node spec call left due effects inside =>
      have placed : (s.place engine node.id call).2.context.Fits live root activity := fits
      obtain ⟨live', fits', alive'⟩ := fits_applyAll placed alive effects
      have agreed : Agreed root (s.place engine node.id call).2 (.active activity limit) :=
        agreed_waiting tallied holds
      have after := agreed.applyAll effects
      exact reported_resume_of_aware owned fits' alive' own after.tallied
        (after.holds activity limit rfl) distinct fun _ => rfl
    | later => exact .active kept

end

/-- No step of a run reports anything else than its root has recorded. -/
theorem reported_step {stage : Stage} (h : Reported root s stage) (sound : Sound root s stage)
    (agreed : Agreed root s stage) (distinct : root.ids.Nodup) (stimulus : Stimulus) :
    Reported root (step engine s stage stimulus).1 (step engine s stage stimulus).2 := by
  cases sound with
  | ended => exact h
  | @active activity limit live fits alive own given =>
    have holds := agreed.holds activity limit rfl
    cases h with
    | active owned =>
      cases stimulus with
      | wake bell =>
        exact reported_resume owned fits alive own agreed.tallied holds distinct bell
      | heed =>
        simp only [step, heed]
        split
        · exact reported_resume owned fits alive own agreed.tallied holds distinct _
        · exact .active owned
      | expire =>
        cases limit with
        | none => exact .active owned
        | some limit => exact reported_expire fits alive
      | act effects => exact .active owned

theorem Reported.later {stage : Stage} (h : Reported root s stage) (time : Nat) :
    Reported root (later s time) stage := by
  cases h with
  | active owned => exact .active owned
  | ended reports => exact .ended reports

/-- In every state that a run reaches which was not cancelled before it started, its root is
recorded as the run has ended. -/
theorem Reaches.reported {p : RunState × Stage} (h : Reaches engine root limit s₀ p)
    (live : s₀.context.cancelled = false) (untouched : s₀.context.Untouched root)
    (distinct : root.ids.Nodup) : Reported root p.1 p.2 := by
  induction h with
  | refl => exact reported_launch live untouched distinct
  | tail reached move ih =>
    have sound := Reaches.sound reached untouched distinct
    have agreed := Reaches.agreed reached untouched distinct
    cases move with
    | step s stage time stimulus =>
      have agreed : Agreed root (later s time) stage := ⟨agreed.tallied, agreed.holds⟩
      exact reported_step (ih.later time) (sound.later time) agreed distinct stimulus

/-- A run that is cancelled before it starts lists its root and counts as cancelled. -/
theorem Reaches.of_cancelled {p : RunState × Stage} (h : Reaches engine root limit s₀ p)
    (dead : s₀.context.cancelled = true) :
    p.1.context = s₀.context.touch root.id ∧
      p.2 = .ended (.ok (.ofContext (s₀.context.touch root.id) .cancelled .null
        (some s₀.cancelledFault.message))) := by
  induction h with
  | refl =>
    have started : start engine s₀ root =
        (s₀.touch root.id, .ended (.error s₀.cancelledFault)) := by
      rw [start_eq, if_pos dead]
    rw [launch, started]
    exact ⟨rfl, rfl⟩
  | tail _ move ih =>
    cases move with
    | step s stage time stimulus =>
      obtain ⟨context, rfl⟩ := ih
      exact ⟨context, rfl⟩

/-! ## Outcomes -/

/-- The outcome of a run of a tree of distinct ids agrees with what is recorded of its root. If the
run has completed, so has the root, and the output of the run is its result. If the run counts as
cancelled, so does the root, unless the run was cancelled before it started: then the root is
pending and has no result. If the time limit has passed, the root and the run are cancelled. With
any other fault the root has failed, and its result is the value of that fault. The counts of a run
that has not ended in a fault are those of the nodes in its context, and these are the nodes of the
tree. -/
theorem outcome_agrees (engine : Engine) (root : Node) (limit : Option Duration) (s₀ : RunState)
    (distinct : root.ids.Nodup) (nodes : s₀.context.nodes = []) (results : s₀.context.results = [])
    {p : RunState × Stage} (h : Reaches engine root limit s₀ p)
    {outcome : Except Fault RunResult} (ended : p.2 = .ended outcome) :
    (∀ result, outcome = .ok result →
      (result.ending = .completed ∧ p.1.context.state root.id = .completed ∧
          p.1.context.results.find? root.id = some result.output ∨
        result.ending = .cancelled ∧ result.output = .null ∧
          (s₀.context.cancelled = false ∧ p.1.context.state root.id = .cancelled ∨
            s₀.context.cancelled = true ∧ p.1.context.state root.id = .pending ∧
              p.1.context.results.find? root.id = none)) ∧
      result.results = p.1.context.results ∧ result.counts = p.1.context.counts ∧
      result.counts = ⟨p.1.context.countIn root .completed, p.1.context.countIn root .failed,
        p.1.context.countIn root .cancelled⟩) ∧
    (∀ millis, outcome = .error (.workflowTimeout millis) →
      p.1.context.state root.id = .cancelled ∧ p.1.context.cancelled = true) ∧
    (∀ fault, outcome = .error fault → (∀ millis, fault ≠ .workflowTimeout millis) →
      p.1.context.state root.id = .failed ∧
        p.1.context.results.find? root.id = some (fault.value root.id)) := by
  have untouched : s₀.context.Untouched root := s₀.context.untouched_of_nodes nodes root
  have recorded := (h.accounts distinct nodes results).context.recorded
  have counts := h.counts distinct nodes results
  cases dead : s₀.context.cancelled with
  | true =>
    obtain ⟨context, stage⟩ := h.of_cancelled dead
    cases ended.symm.trans stage
    have pending : p.1.context.state root.id = .pending := by
      rw [context, Context.state, Context.phase_touch]
      exact untouched.state root.mem_ids_self
    have missing : p.1.context.results.find? root.id = none := by
      rw [context, Context.touch, Context.setPhase, results]
      rfl
    refine ⟨?_, ?_, ?_⟩ <;> rintro _ ⟨⟩
    rw [← context]
    exact ⟨.inr ⟨rfl, rfl, .inr ⟨rfl, pending, missing⟩⟩, rfl, rfl, counts⟩
  | false =>
    have reported := h.reported dead untouched distinct
    rw [ended] at reported
    cases reported with
    | ended reports =>
      cases reports with
      | completed yields =>
        refine ⟨?_, ?_, ?_⟩ <;> rintro _ ⟨⟩
        exact ⟨.inl ⟨rfl, yields.1, recorded _ _ yields.2⟩, rfl, rfl, counts⟩
      | cancelled state =>
        refine ⟨?_, ?_, ?_⟩ <;> rintro _ ⟨⟩
        exact ⟨.inr ⟨rfl, rfl, .inl ⟨rfl, state⟩⟩, rfl, rfl, counts⟩
      | failed own fails =>
        refine ⟨?_, ?_, ?_⟩ <;> rintro _ ⟨⟩
        · cases own
        · exact fun _ => ⟨fails.1, recorded _ _ fails.2⟩
      | late state dead =>
        refine ⟨?_, ?_, ?_⟩ <;> rintro _ ⟨⟩
        · exact ⟨state, dead⟩
        · exact fun other => absurd rfl (other _)

/-- Two tasks that run one after the other have completed, and their values are those of the run. -/
theorem outcome_agrees_finished : pair.ids.Nodup ∧ outset.context.nodes = [] ∧
    outset.context.results = [] ∧ Reaches slow pair none outset finished ∧
    ∃ result, finished.2 = .ended (.ok result) ∧ result.output = .arr [.null, .null] ∧
      finished.1.context.results.find? "both" = some result.output ∧ result.counts = ⟨3, 0, 0⟩ := by
  have distinct : pair.ids.Nodup := by decide
  have ended : finished.2 = .ended (.ok (.ofContext finished.1.context .completed
      (.arr [.null, .null]) none)) := rfl
  have agrees := (outcome_agrees slow pair none outset distinct rfl rfl reaches_finished ended).1
    _ rfl
  refine ⟨distinct, rfl, rfl, reaches_finished, _, ended, rfl, ?_, ?_⟩
  · rcases agrees.1 with ⟨-, -, output⟩ | ⟨cancelled, -⟩
    · exact output
    · cases cancelled
  · exact agrees.2.2.2.trans rfl

end Run

end Stepwise
