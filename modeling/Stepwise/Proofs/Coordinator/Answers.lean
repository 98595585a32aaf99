import Stepwise.Proofs.Coordinator.Endings
import Stepwise.Proofs.Response

/-!
# Answers

Every response of a coordinator agrees with itself, wherever it was made up
(`responses_consistent`): before a run, after one, or in place of one. What has to be known for this
is that a run fails with a fault of its nodes or of its time limit alone, and that the reader of a
list of steps has faults of its own. The record that is saved says what the response says.
-/

namespace Stepwise

/-- The run of a session has kept no failures but those of nodes. -/
def Session.Owned (session : Session) : Prop :=
  ∀ plan activity limit, session.phase = .executing plan activity limit → activity.Owned

/-- What a session has come to is sound in its failures: those that its run keeps, or that which it
ends with. -/
def Move.Answers : Move → Prop
  | .stays session => session.Owned
  | .ends response => response.Consistent

namespace Session

variable {engine : Engine} {policy : Policy} {plan : Plan} {session : Session} {world : World}
  {notes : List Note} {p : World × Move}

theorem consistent_cancelledResponse (session : Session) (world : World)
    (partialResult : Option Json) : (session.cancelledResponse world partialResult).Consistent :=
  .of_other rfl rfl rfl rfl rfl fun _ => nofun

/-- The check is answered with its report. -/
theorem consistent_checkResponse (session : Session) (world : World) (report : Report) :
    (session.checkResponse world report).Consistent := by
  unfold checkResponse
  split
  · exact .of_success rfl rfl rfl rfl rfl
  · refine .of_fault rfl rfl rfl rfl rfl fun issues same => ?_
    cases same
    exact ⟨report, rfl, rfl⟩

/-- What follows a step of a run is sound, if the step is. -/
theorem After.answers {q : RunState × Run.Stage}
    (after : After engine policy plan session q notes p) (owned : q.2.Owned) : p.2.Answers := by
  induction after with
  | waits =>
    intro plan activity limit same
    cases same
    exact owned
  | completes => exact .of_success rfl rfl rfl rfl rfl
  | stops => exact consistent_cancelledResponse _ _ _
  | @fails session s fault =>
    have ofRun : fault.OfRun := owned fault rfl
    exact .of_other rfl rfl rfl rfl rfl ofRun.ne_invalid
  | pauses =>
    intro plan activity limit same
    cases same
  | repeats _ _ _ _ _ ih => exact ih (Run.owned_launch _ _ _ _)

/-- A session that is run goes on soundly. -/
theorem answers_execute (engine : Engine) (policy : Policy) (plan : Plan) (session : Session)
    (world : World) :
    (execute engine policy plan (plan.maxRetries - session.retries) world session).2.Answers := by
  obtain ⟨notes, after⟩ := exists_execute engine policy plan session world
  exact after.answers (Run.owned_launch _ _ _ _)

theorem answers_proceed (engine : Engine) (policy : Policy) (world : World) (session : Session) :
    (session.proceed engine policy world).2.Answers := by
  unfold proceed
  split
  · exact consistent_cancelledResponse _ _ _
  · dsimp only
    split
    · next faults refused =>
      have blame := Step.blameworthy_collapse refused
      exact .of_other blame.status.symm rfl rfl rfl rfl blame.ne_invalid
    · next root parsed =>
      split
      · exact consistent_checkResponse _ _ _
      · split
        · refine .of_fault rfl rfl rfl rfl rfl fun issues same => ?_
          cases same
          exact ⟨_, rfl, rfl⟩
        · split
          · exact .of_success rfl rfl rfl rfl rfl
          · exact answers_execute engine policy
              ⟨root, Checker.validate ⟨policy.limits, policy.catalog⟩ root,
                (session.request.maxRetries.getD policy.maxRetries).toNat,
                session.request.timeout.or policy.timeout⟩
              { session with status := .running }
              (world.emit (.workflowStarted session.request.workflowId session.id root.count))

theorem owned_core (session : Session) : session.core.Owned ↔ session.Owned := Iff.rfl

/-- Whoever is let through the gate has no run yet. -/
theorem Owned.letThrough (h : session.Owned) (next : Option Nat) :
    (session.letThrough next).Owned := by
  unfold Session.letThrough
  split
  · intro plan activity limit same
    cases same
  · exact h

end Session

namespace Coordinator

variable {rules : Rules} {policy : Policy} {executor : Executor} {c later : Coordinator}
  {session : Session} {noted : List Remark} {log more : List Item} {p : World × Move}

/-- Whatever a session does, it goes on soundly or ends with a response that agrees with itself. -/
theorem Steps.answers {deaf : Bool} (steps : c.Steps session deaf p) (owned : session.Owned) :
    p.2.Answers := by
  cases steps with
  | begin => exact Session.answers_proceed _ _ _ _
  | @goOn plan activity limit phase stimulus =>
    have own : (Run.Stage.active activity limit).Owned := owned plan activity limit phase
    obtain ⟨notes, after⟩ := Session.exists_after c.engine c.policy plan session
      (Run.step c.engine ⟨c.world, session.context.getD session.freshContext⟩
        (.active activity limit) stimulus)
    exact after.answers (Run.owned_step own _ stimulus)
  | rest =>
    unfold Session.rested
    split
    · exact Session.consistent_cancelledResponse _ _ _
    · exact Session.answers_execute _ _ _ _ _

/-- The sessions of a coordinator are sound in their failures, and its responses consistent. -/
structure Answers (c : Coordinator) : Prop where
  sessions : ∀ core ∈ c.cores, core.Owned
  ends : ∀ e ∈ c.ends, e.response.Consistent

namespace Answers

theorem make (policy : Policy) (executor : Executor) (ids : Nat → String) :
    (make policy executor ids).Answers :=
  ⟨fun _ member => absurd member List.not_mem_nil, fun _ member => absurd member List.not_mem_nil⟩

theorem frame (h : c.Answers) (cores : later.cores = c.cores) (ends : later.ends = c.ends) :
    later.Answers := ⟨cores ▸ h.sessions, ends ▸ h.ends⟩

/-- A request ends without a session. -/
theorem refuse (h : c.Answers) {e : End} (cores : later.cores = c.cores)
    (ends : later.ends = c.ends ++ [e]) (consistent : e.response.Consistent) : later.Answers := by
  refine ⟨cores ▸ h.sessions, fun other member => ?_⟩
  rw [ends] at member
  rcases List.mem_append.1 member with member | member
  · exact h.ends other member
  · rw [List.mem_singleton.1 member]
    exact consistent

/-- A request is taken. -/
theorem take (h : c.Answers) {newcomer : Session} (owned : newcomer.Owned)
    (cores : later.cores = c.cores ++ [newcomer.core]) (ends : later.ends = c.ends) :
    later.Answers := by
  refine ⟨fun core member => ?_, ends ▸ h.ends⟩
  rw [cores] at member
  rcases List.mem_append.1 member with member | member
  · exact h.sessions core member
  · rw [List.mem_singleton.1 member]
    exact owned

theorem cores_append (c : Coordinator) (session : Session) :
    { c with sessions := c.sessions ++ [session] }.cores = c.cores ++ [session.core] := by
  simp [cores]

theorem owned (h : c.Answers) (member : session ∈ c.sessions) : session.Owned :=
  session.owned_core.1 (h.sessions _ (List.mem_map_of_mem member))

/-- Whatever a coordinator does, it answers as it should. -/
theorem does (h : c.Answers) (sound : c.Sound) (does : Does rules c noted more later) :
    later.Answers := by
  cases does with
  | receive | line | leave | pass => exact h.frame rfl rfl
  | cancel id =>
    have kept := Kept.cancel sound id
    exact h.frame kept.cores kept.ends
  | register added =>
    cases register_ok added
    exact h.frame rfl rfl
  | refuse | repel => exact h.refuse rfl rfl (.of_other rfl rfl rfl rfl rfl fun _ => nofun)
  | queue fresh given request | enter fresh given request =>
    refine h.take (fun plan activity limit same => ?_) (cores_append _ _) rfl
    cases same
  | @goOn session next member deaf world steps =>
    have kept := kept_stays sound member (steps.goes_deaf (sound.sessions _ member))
    refine ⟨fun core inside => ?_, kept.ends ▸ h.ends⟩
    rw [kept.cores, cores_replace] at inside
    obtain ⟨other, among, rfl⟩ := List.mem_map.1 inside
    split
    · exact next.owned_core.2 (steps.answers (h.owned member))
    · exact h.sessions other among
  | @conclude session member deaf world response steps =>
    have parted := parted_ends sound member (steps.goes_deaf (sound.sessions _ member))
    refine ⟨fun core inside => ?_, fun e inside => ?_⟩
    · rw [parted.cores] at inside
      obtain ⟨other, among, rfl⟩ := List.mem_map.1 (List.mem_of_mem_filter inside)
      exact (h.sessions other among).letThrough _
    · rw [parted.ends] at inside
      rcases List.mem_append.1 inside with inside | inside
      · exact h.ends e inside
      · rw [List.mem_singleton.1 inside]
        exact steps.answers (h.owned member)

end Answers

theorem Ledger.answers (h : Ledger policy executor c log) : c.Answers :=
  h.induction (P := fun c _ => c.Answers) (fun ids => .make policy executor ids)
    fun before answers does => answers.does before.sound does

/-- The response of a call is that of an end. -/
theorem exists_end_of_call {steps : Nat} {request : Request} {response : Response}
    (answered : (c.call steps request).1 = some response) :
    ∃ e ∈ (c.call steps request).2.ends, e.response = response := by
  obtain ⟨e, found, rfl⟩ := Option.map_eq_some_iff.1 answered
  exact ⟨e, List.mem_of_find?_eq_some found, rfl⟩

/-- All responses agree with themselves: those that a coordinator has given, and that which it gives
to any call. A request that is not repelled has saved one record, which says what its response says,
and the repository keeps what was saved. -/
theorem responses_consistent (policy : Policy) (executor : Executor) :
    Bookkeeping policy executor ∧
    ∀ c log, Ledger policy executor c log →
      (∀ steps request response, (c.call steps request).1 = some response →
        response.Consistent) ∧
      c.repository = (gathered Deed.record? log).foldl Repository.save .empty ∧
      ∀ e ∈ c.ends, e.response.Consistent ∧ (Repelled log e ∨
        ∃ record, (deedsOf e.handle log).filterMap Deed.record? = [record] ∧
          record.Carries e.response) := by
  refine ⟨bookkeeping policy executor, fun c log ledger => ⟨?_, ?_, ?_⟩⟩
  · intro steps request response answered
    obtain ⟨e, member, rfl⟩ := exists_end_of_call answered
    obtain ⟨more, later⟩ := ledger.leads (leads_call steps request ledger.sound)
    exact later.answers.ends e member
  · exact ledger.outlets.repository
  · intro e member
    refine ⟨ledger.answers.ends e member, ?_⟩
    refine (ledger.recounts.ends e member).concluded.imp_right ?_
    rintro ⟨request, events, concluded⟩
    obtain ⟨recordedAt, saved⟩ := concluded.saved
    exact ⟨_, saved, ExecutionRecord.carries_ofResponse _ _ _⟩

/-- A request with two tasks that have no names, one of which is to be tried rather often. -/
def flawed : Request :=
  { errand with
    steps := [.obj [("retry_count", .int 6), ("task", .str "")], .obj [("task", .str " ")]] }

/-- Its tree. -/
def flaw : Node := .make "sequence_1" .sequence
  [.make "task_" (.task ⟨"", [], [], 6, none, none⟩) [],
    .make "_" (.task ⟨" ", [], [], 0, none, none⟩) []]

theorem parse_flawed : Step.parse flawed.steps = .ok flaw := by cbv

theorem isValid_flaw : (Checker.validate ⟨Policy.standard.limits, Policy.standard.catalog⟩
    flaw).isValid = false := by cbv

/-- The session of the request at the gate. -/
def flawedSession : Session := newcomer (make .standard patient) 0 "run" flawed .admitted

theorem proceed_flawed : ∃ response : Response, response.errorCode = some "ORCA-010" ∧
    flawedSession.proceed ⟨patient, Policy.standard.defaults⟩ .standard .empty =
      (.empty, .ends response) := by
  have parsed : Step.parse flawedSession.request.steps = .ok flaw := parse_flawed
  have mode : flawedSession.request.mode = .execute := rfl
  unfold Session.proceed
  rw [if_neg (by decide)]
  simp only [parsed, mode, isValid_flaw]
  exact ⟨_, rfl, rfl⟩

/-- The request is answered at once. -/
theorem exists_call_flawed : ∃ response : Response, response.errorCode = some "ORCA-010" ∧
    ((make .standard patient).call 0 flawed).1 = some response := by
  obtain ⟨response, coded, proceeds⟩ := proceed_flawed
  let c : Coordinator :=
    { (make .standard patient).received with sessions := [flawedSession], free := 9 }
  have accepted : ((make .standard patient).call 0 flawed).2 =
      c.settle flawedSession (flawedSession.proceed c.engine c.policy c.world) := rfl
  have ends : (c.settle flawedSession (.empty, .ends response)).end? 0 =
      some ⟨0, 0, response⟩ := rfl
  refine ⟨response, coded, ?_⟩
  change (((make .standard patient).call 0 flawed).2.end? 0).map End.response = some response
  rw [accepted]
  change ((c.settle flawedSession (flawedSession.proceed ⟨patient, Policy.standard.defaults⟩
    .standard .empty)).end? 0).map End.response = some response
  rw [proceeds, ends]
  rfl

/-- The request fails with an entry for each of its errors, and is recorded so. -/
theorem responses_consistent_flawed : ∃ response log e,
    ((make .standard patient).call 0 flawed).1 = some response ∧ response.Consistent ∧
    response.errorCode = some "ORCA-010" ∧
    Ledger .standard patient ((make .standard patient).call 0 flawed).2 log ∧
    e ∈ ((make .standard patient).call 0 flawed).2.ends ∧ e.response = response ∧
    ∃ record, (deedsOf e.handle log).filterMap Deed.record? = [record] ∧
      record.Carries response := by
  obtain ⟨response, coded, answered⟩ := exists_call_flawed
  obtain ⟨keeping, all⟩ := responses_consistent .standard patient
  obtain ⟨consistent, -, -⟩ := all _ _ (ledger_make .standard patient numberedId)
  obtain ⟨log, ledger⟩ := keeping.ledger numberedId _ (leads_call 0 flawed (sound_make ..))
  obtain ⟨e, member, rfl⟩ := exists_end_of_call answered
  obtain ⟨-, -, ends⟩ := all _ _ ledger
  refine ⟨e.response, log, e, answered, consistent 0 flawed _ answered, coded, ledger, member, rfl,
    (ends e member).2.resolve_left ?_⟩
  rintro ⟨id, request, before, other, same, -⟩
  have refused : e.response.errorCode = some "ORCA-040" := congrArg Response.errorCode same
  rw [coded] at refused
  exact absurd (Option.some.inj refused) (by decide)

end Coordinator

end Stepwise
