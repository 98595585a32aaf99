import Stepwise.Proofs.Coordinator.Schedule
import Stepwise.Proofs.Run.Undisturbed

/-!
# Attempts of a request

What is noted of a request: that it was taken, each run as it is launched and as it returns, each
pause, and the answer. `Session.After` tells what follows a step of a run, rule by rule, with the
notes that are made; `Coordinator.Tells` does so for any step of a session. Every step is told
(`exists_after`, `exists_tells`), so the notes leave out no run.
-/

namespace Stepwise

/-- What is noted of a request. With the answer goes the record that is kept of it. -/
inductive Note where
  | taken (session : Session)
  | launched (start : RunState)
  | returned (last : RunState) (outcome : Except Fault RunResult)
  | paused (length : Duration)
  | answered (response : Response) (record : Option ExecutionRecord)

/-- The plan by which a request is run, if it is to be executed and passes the checks. -/
structure Planned (policy : Policy) (request : Request) (plan : Plan) : Prop where
  mode : request.mode = .execute
  parsed : Step.parse request.steps = .ok plan.root
  report : plan.report = Checker.validate ⟨policy.limits, policy.catalog⟩ plan.root
  valid : plan.report.isValid = true
  maxRetries : plan.maxRetries = (request.maxRetries.getD policy.maxRetries).toNat
  timeout : plan.timeout = request.timeout.or policy.timeout

theorem Planned.distinct {policy : Policy} {request : Request} {plan : Plan}
    (h : Planned policy request plan) : plan.root.ids.Nodup :=
  Checker.distinct_of_isValid (h.report ▸ h.valid)

theorem exists_planned {policy : Policy} {request : Request} {root : Node}
    (mode : request.mode = .execute) (parsed : Step.parse request.steps = .ok root)
    (valid : (Checker.validate ⟨policy.limits, policy.catalog⟩ root).isValid = true) :
    ∃ plan, Planned policy request plan :=
  ⟨⟨root, _, _, _⟩, mode, parsed, rfl, valid, rfl, rfl⟩

/-- The plan is one of the tree that was read. -/
theorem Planned.root_eq {policy : Policy} {request : Request} {plan : Plan} {root : Node}
    (h : Planned policy request plan) (parsed : Step.parse request.steps = .ok root) :
    plan.root = root := Except.ok.inj (h.parsed.symm.trans parsed)

namespace Session

/-- A session when its run has returned: it knows the context that is left, and whether an answer
has asked to cancel it. -/
def back (session : Session) (s : RunState) : Session :=
  ({ session with context := some s.context } : Session).notice s.world

/-- A session that has not been cancelled and is to have another run. -/
def retrying (session : Session) (s : RunState) : Session :=
  { session with context := some s.context, retries := session.retries + 1 }

/-- The world when a session has been told to have another run. -/
def announced (session : Session) (policy : Policy) (fault : Fault) (s : RunState) : World :=
  s.world.emit (.workflowRetrying session.id (session.retries + 1)
    (policy.pause session.retries).shownMillis fault.message)

/-- A run that begins. -/
def outset (session : Session) (world : World) : RunState := ⟨world, session.freshContext⟩

/-- What follows a step of a run, with what is noted. The run waits; or it returns, and the session
ends, or pauses, or has its next run at once. -/
inductive After (engine : Engine) (policy : Policy) (plan : Plan) :
    Session → RunState × Run.Stage → List Note → World × Move → Prop
  | waits {session : Session} {s : RunState} {activity : Activity} {bound : Option Run.TimeLimit} :
      After engine policy plan session (s, .active activity bound) []
        (s.world, .stays { session with
          context := some s.context, phase := .executing plan activity bound })
  | completes {session : Session} {s : RunState} {result : RunResult}
      (good : result.isCancelled = false) :
      After engine policy plan session (s, .ended (.ok result)) [.returned s (.ok result)]
        (s.world, .ends ((session.back s).completedResponse s.world plan result.results))
  /-- The run or the session was cancelled. -/
  | stops {session : Session} {s : RunState} {outcome : Except Fault RunResult}
      (reason : (session.back s).cancelled = true ∨ ¬Run.Uncancelled outcome)
      (partialResult : Option Json) :
      After engine policy plan session (s, .ended outcome) [.returned s outcome]
        (s.world, .ends ((session.back s).cancelledResponse s.world partialResult))
  /-- The fault will not go away, or there may be no other run. -/
  | fails {session : Session} {s : RunState} {fault : Fault} (plain : fault.isCancelled = false)
      (final : fault.isRetryable = true → plan.maxRetries ≤ session.retries) :
      After engine policy plan session (s, .ended (.error fault)) [.returned s (.error fault)]
        (s.world, .ends ((session.back s).failedResponse s.world plan fault s.context.results))
  | pauses {session : Session} {s : RunState} {fault : Fault}
      (live : (session.back s).cancelled = false) (retryable : fault.isRetryable = true)
      (more : session.retries < plan.maxRetries) (long : policy.pause session.retries ≠ .zero) :
      After engine policy plan session (s, .ended (.error fault))
        [.returned s (.error fault), .paused (policy.pause session.retries)]
        ({ session.announced policy fault s with tickets := s.world.tickets + 1 },
          .stays { session.retrying s with
            phase := .pausing plan s.world.tickets
              (s.world.wakeAt (policy.pause session.retries)) })
  | repeats {session : Session} {s : RunState} {fault : Fault} {notes : List Note} {p : World × Move}
      (live : (session.back s).cancelled = false) (retryable : fault.isRetryable = true)
      (more : session.retries < plan.maxRetries) (short : policy.pause session.retries = .zero)
      (next : After engine policy plan { session.retrying s with attempt := session.retries + 1 }
        (Run.launch engine plan.root plan.timeout
          ((session.retrying s).outset (session.announced policy fault s))) notes p) :
      After engine policy plan session (s, .ended (.error fault))
        (.returned s (.error fault) :: .paused (policy.pause session.retries) ::
          .launched ((session.retrying s).outset (session.announced policy fault s)) :: notes) p

variable {engine : Engine} {policy : Policy} {plan : Plan} {session : Session}

theorem cancelled_back (session : Session) (s : RunState) : (session.back s).cancelled =
    (session.cancelled || s.world.requests.contains session.id) := cancelled_notice _ _

/-- Apart from the cancellation a session only knows the context that is left. -/
theorem back_eq (session : Session) (s : RunState) : session.back s =
    { session with context := some s.context, cancelled := (session.back s).cancelled } := by
  unfold back notice
  split <;> rfl

/-- A session that has not been cancelled pauses, or has its next run at once. -/
theorem pauseAfter_eq (make : World → Session → World × Move) (fault : Fault) {s : RunState}
    (live : (session.back s).cancelled = false) :
    pauseAfter policy plan make (session.back s) fault s.world =
      if policy.pause session.retries = .zero then
        make (session.announced policy fault s) (session.retrying s)
      else
        ({ session.announced policy fault s with tickets := s.world.tickets + 1 },
          .stays { session.retrying s with
            phase := .pausing plan s.world.tickets
              (s.world.wakeAt (policy.pause session.retries)) }) := by
  have calm := live
  rw [cancelled_back, Bool.or_eq_false_iff] at calm
  have same : session.back s = { session with context := some s.context } := by
    rw [back_eq, live, ← calm.1]
  rw [same]
  rfl

/-- A run is launched for a session that has some retries behind it. -/
theorem execute_eq {left : Nat} (h : plan.maxRetries - session.retries = left) (world : World) :
    execute engine policy plan left world session =
      afterStep policy plan (session.again? engine policy plan)
        { session with attempt := session.retries }
        (Run.launch engine plan.root plan.timeout (session.outset world)) := by
  unfold again?
  rw [h]
  cases left with
  | zero => rfl
  | succ left => rfl

/-- What follows a step of a run is told if the next run is, where there may be one. -/
theorem exists_after_of {again : Option (World → Session → World × Move)}
    (more : ∀ make ∈ again, session.retries < plan.maxRetries)
    (last : again = none → plan.maxRetries ≤ session.retries)
    (next : ∀ make ∈ again, ∀ fault s, ∃ notes,
      After engine policy plan { session.retrying s with attempt := session.retries + 1 }
        (Run.launch engine plan.root plan.timeout
          ((session.retrying s).outset (session.announced policy fault s))) notes
        (make (session.announced policy fault s) (session.retrying s)))
    (p : RunState × Run.Stage) :
    ∃ notes, After engine policy plan session p notes (afterStep policy plan again session p) := by
  obtain ⟨s, stage⟩ := p
  have same : ({ session with context := some s.context } : Session).notice s.world =
    session.back s := rfl
  cases stage with
  | active activity bound => exact ⟨_, .waits⟩
  | ended outcome =>
    simp only [afterStep, same]
    cases outcome with
    | ok result =>
      dsimp only
      split
      · next cancelled =>
        have dead : ¬Run.Uncancelled (.ok result) := fun good => ne_true_of_eq_false good cancelled
        exact ⟨_, .stops (.inr dead) _⟩
      · next good => exact ⟨_, .completes (eq_false_of_ne_true good)⟩
    | error fault =>
      dsimp only
      split
      · next dead =>
        refine ⟨_, .stops ((Bool.or_eq_true_iff.1 dead).imp_right fun cancelled plain => ?_) _⟩
        have plain : fault.isCancelled = false := plain
        rw [cancelled] at plain
        cases plain
      · next calm =>
        rw [Bool.or_eq_true, not_or, Bool.not_eq_true, Bool.not_eq_true] at calm
        obtain ⟨live, plain⟩ := calm
        cases retryable : fault.isRetryable with
        | false =>
          refine ⟨_, .fails plain fun other => ?_⟩
          rw [retryable] at other
          cases other
        | true =>
          cases again with
          | none => exact ⟨_, .fails plain fun _ => last rfl⟩
          | some make =>
            dsimp only
            rw [pauseAfter_eq make fault live]
            split
            · next short =>
              obtain ⟨notes, after⟩ := next make rfl fault s
              exact ⟨_, .repeats live retryable (more make rfl) short after⟩
            · next long => exact ⟨_, .pauses live retryable (more make rfl) long⟩

/-- Whatever follows a step of a run is told. -/
theorem exists_after (engine : Engine) (policy : Policy) (plan : Plan) (session : Session)
    (p : RunState × Run.Stage) :
    ∃ notes, After engine policy plan session p notes
      (afterStep policy plan (session.again? engine policy plan) session p) := by
  generalize left : plan.maxRetries - session.retries = n
  induction n generalizing session p with
  | zero =>
    have past : session.again? engine policy plan = none := by rw [again?, left]
    rw [past]
    exact exists_after_of (fun _ member => absurd member (Option.not_mem_none _))
      (fun _ => Nat.le_of_sub_eq_zero left) (fun _ member => absurd member (Option.not_mem_none _)) p
  | succ n ih =>
    have again : session.again? engine policy plan = some (execute engine policy plan n) := by
      rw [again?, left]
    rw [again]
    refine exists_after_of (fun _ _ => ?_) (fun same => by cases same) (fun make member fault s => ?_) p
    · omega
    · cases Option.mem_some.1 member
      have fewer : plan.maxRetries - (session.retrying s).retries = n := by
        have counted : (session.retrying s).retries = session.retries + 1 := rfl
        omega
      rw [execute_eq fewer]
      exact ih { session.retrying s with attempt := session.retries + 1 } _ fewer

/-- So are the run that begins and all that follow it at once. -/
theorem exists_execute (engine : Engine) (policy : Policy) (plan : Plan) (session : Session)
    (world : World) : ∃ notes, After engine policy plan { session with attempt := session.retries }
      (Run.launch engine plan.root plan.timeout (session.outset world)) notes
      (execute engine policy plan (plan.maxRetries - session.retries) world session) := by
  rw [execute_eq rfl]
  exact exists_after engine policy plan { session with attempt := session.retries } _

end Session

namespace Coordinator

/-- The world when it has been told that a request is run. -/
def opened (c : Coordinator) (session : Session) (plan : Plan) : World :=
  c.world.emit (.workflowStarted session.request.workflowId session.id plan.root.count)

/-- What a session does that goes on, with what is noted. It begins with its first run, goes on
with its run, or begins the next one when its pause is over; or it ends without another run. -/
inductive Tells (c : Coordinator) (session : Session) : List Note → World × Move → Prop
  /-- The session was cancelled, or is not to be run. -/
  | declines (phase : session.phase = .admitted)
      (reason : session.cancelled = true ∨ ∀ plan, ¬Planned c.policy session.request plan)
      {response : Response} (own : response.executionId = session.id) :
      Tells c session [] (c.world, .ends response)
  | begins (phase : session.phase = .admitted) (live : session.cancelled = false) {plan : Plan}
      (planned : Planned c.policy session.request plan) {notes : List Note} {p : World × Move}
      (after : Session.After c.engine c.policy plan
        { session with status := .running, attempt := session.retries }
        (Run.launch c.engine plan.root plan.timeout (session.outset (c.opened session plan)))
        notes p) :
      Tells c session (.launched (session.outset (c.opened session plan)) :: notes) p
  | goesOn {plan : Plan} {activity : Activity} {bound : Option Run.TimeLimit} {context : Context}
      (phase : session.phase = .executing plan activity bound)
      (current : session.context = some context) {stimulus : Run.Stimulus} (idle : stimulus.Idle)
      {notes : List Note} {p : World × Move}
      (after : Session.After c.engine c.policy plan session
        (Run.step c.engine ⟨c.world, context⟩ (.active activity bound) stimulus) notes p) :
      Tells c session notes p
  /-- The session was cancelled in its pause. -/
  | stops {plan : Plan} {ticket due : Nat} (phase : session.phase = .pausing plan ticket due)
      (dead : session.cancelled = true) (partialResult : Option Json) :
      Tells c session [] (c.world, .ends (session.cancelledResponse c.world partialResult))
  /-- The pause of the session is over. If it was cancelled that was not noticed before. -/
  | resumes {plan : Plan} {ticket due : Nat} (phase : session.phase = .pausing plan ticket due)
      (past : due ≤ c.world.now) {notes : List Note} {p : World × Move}
      (after : Session.After c.engine c.policy plan { session with attempt := session.retries }
        (Run.launch c.engine plan.root plan.timeout (session.outset c.world)) notes p) :
      Tells c session (.launched (session.outset c.world) :: notes) p

variable {c : Coordinator} {session : Session}

/-- A session that has been let through is told, whatever becomes of it. -/
theorem exists_tells_proceed (c : Coordinator) (session : Session)
    (phase : session.phase = .admitted) :
    ∃ notes, c.Tells session notes (session.proceed c.engine c.policy c.world) := by
  unfold Session.proceed
  split
  · next dead => exact ⟨_, .declines phase (.inl dead) rfl⟩
  · next calm =>
    have live : session.cancelled = false := eq_false_of_ne_true calm
    have declines {response : Response} (own : response.executionId = session.id)
        (reason : ∀ plan, ¬Planned c.policy session.request plan) :
        ∃ notes, c.Tells session notes (c.world, .ends response) :=
      ⟨_, .declines phase (.inr reason) own⟩
    dsimp only
    split
    · next unread =>
      refine declines rfl fun plan planned => ?_
      rw [planned.parsed] at unread
      cases unread
    · next root parsed =>
      split
      · next mode =>
        refine declines ?_ fun plan planned => ?_
        · unfold Session.checkResponse
          split <;> rfl
        · rw [planned.mode] at mode
          cases mode
      · split
        · next invalid =>
          refine declines rfl fun plan planned => ?_
          cases planned.root_eq parsed
          rw [← planned.report, planned.valid] at invalid
          cases invalid
        · next valid =>
          rw [Bool.not_eq_true, Bool.not_eq_false'] at valid
          split
          · next dry =>
            refine declines rfl fun plan planned => ?_
            rw [planned.mode] at dry
            cases dry
          · next checks dry =>
            have mode : session.request.mode = .execute := by
              cases mode : session.request.mode with
              | execute => rfl
              | validateOnly => exact absurd mode checks
              | dryRun => exact absurd mode dry
            let plan : Plan :=
              ⟨root, Checker.validate ⟨c.policy.limits, c.policy.catalog⟩ root,
                (session.request.maxRetries.getD c.policy.maxRetries).toNat,
                session.request.timeout.or c.policy.timeout⟩
            have planned : Planned c.policy session.request plan :=
              ⟨mode, parsed, rfl, valid, rfl, rfl⟩
            obtain ⟨notes, after⟩ := Session.exists_execute c.engine c.policy plan
              { session with status := .running } (c.opened session plan)
            exact ⟨_, .begins phase live planned after⟩

/-- Whatever comes to a session by the clock, it does nothing or what it does is told. -/
theorem exists_tells (sound : session.Sound c.world) {stimulus : Run.Stimulus}
    (timely : c.Timely session stimulus) :
    c.stimulate session stimulus = c ∨ ∃ notes p, c.Steps session stimulus.isDeaf p ∧
      c.Tells session notes p ∧ c.stimulate session stimulus = c.settle session p := by
  unfold Session.Sound at sound
  unfold stimulate
  split
  · exact .inl rfl
  · next phase =>
    obtain ⟨notes, tells⟩ := exists_tells_proceed c session phase
    exact .inr ⟨notes, _, .begin phase _, tells, rfl⟩
  · next plan activity bound phase =>
    simp only [phase] at sound
    obtain ⟨context, runs⟩ := sound
    obtain ⟨notes, after⟩ := Session.exists_after c.engine c.policy plan session
      (Run.step c.engine ⟨c.world, context⟩ (.active activity bound) stimulus)
    refine .inr ⟨notes, _, .goOn phase stimulus, ?_, rfl⟩
    rw [Session.goOn, runs.current]
    exact .goesOn phase runs.current timely.idle after
  · next plan ticket due phase =>
    have resumes (past : due ≤ c.world.now) : ∃ notes, c.Tells session notes
        (session.execute c.engine c.policy plan (plan.maxRetries - session.retries) c.world) := by
      obtain ⟨notes, after⟩ := Session.exists_execute c.engine c.policy plan session c.world
      exact ⟨_, .resumes phase past after⟩
    split
    · exact .inl rfl
    · exact .inl rfl
    · next stimulus _ _ heeded _ =>
      right
      by_cases stopped : (session.cancelled && !stimulus.isDeaf) = true
      · refine ⟨[], _, .rest phase _, ?_, rfl⟩
        rw [Session.rested, if_pos stopped]
        exact .stops phase (Bool.and_eq_true_iff.1 stopped).1 _
      · have past : due ≤ c.world.now := by
          refine (timely.rested plan ticket due phase).resolve_left ?_
          rintro rfl
          cases dead : session.cancelled with
          | true => exact stopped (by rw [dead]; rfl)
          | false => exact heeded dead rfl
        obtain ⟨notes, tells⟩ := resumes past
        refine ⟨notes, _, .rest phase _, ?_, rfl⟩
        rw [Session.rested, if_neg stopped]
        exact tells

/-- When the pause of a session is over that nobody has cancelled, its next run begins. -/
theorem ring_of_pausing (sound : c.Sound) (member : session ∈ c.sessions) {plan : Plan}
    {ticket due : Nat} (phase : session.phase = .pausing plan ticket due)
    (live : session.cancelled = false) :
    ∃ notes p, c.ring ⟨due, session.handle, .wake ⟨ticket, false⟩⟩ = (c.asOf due).settle session p ∧
      (c.asOf due).Tells session (.launched (session.outset (c.asOf due).world) :: notes) p := by
  obtain ⟨notes, after⟩ := Session.exists_execute c.engine c.policy plan session (c.asOf due).world
  have rested : (c.asOf due).stimulate session (.wake ⟨ticket, false⟩) = (c.asOf due).settle session
      (session.rested c.engine c.policy plan false (c.asOf due).world) := by
    unfold stimulate
    simp only [phase, live]
    rfl
  refine ⟨notes, _, ?_, .resumes phase (Nat.le_max_right _ _) after⟩
  rw [ring_eq (sound.session?_eq member), rested, Session.rested, live]
  rfl

end Coordinator

end Stepwise
