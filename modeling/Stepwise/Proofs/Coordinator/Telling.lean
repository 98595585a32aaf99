import Stepwise.Proofs.Coordinator.Trials
import Stepwise.Proofs.Run.Telling

/-!
# What sessions tell

A session tells first that its execution starts, and then of nodes and, before each run but the
first, that the execution is run again; the retries that it counts are those it has told of
(`Retold`). It tells nothing more of its execution until it ends, and the event of the end says
what the response says (`Response.ToldAs`).
-/

namespace Stepwise

/-- The number that is told of a run after the first one. -/
def Event.attempt? : Event → Option Nat
  | .workflowRetrying _ attempt _ _ => some attempt
  | _ => none

/-- An event about a node, or of an execution that is run again. -/
def Event.IsOfRun (id : String) (event : Event) : Prop :=
  event.isWorkflowEvent = false ∨
    ∃ attempt millis error, event = .workflowRetrying id attempt millis error

/-- The events of some runs of an execution. Each run but the first of all is told by its number. -/
structure Retold (id : String) (before after : Nat) (events : List Event) : Prop where
  own : ∀ event ∈ events, event.IsOfRun id
  le : before ≤ after
  counted : events.filterMap Event.attempt? = List.range' (before + 1) (after - before)

namespace Retold

variable {id : String} {a b d n : Nat} {events more : List Event}

theorem of_nodes (nodes : ∀ event ∈ events, event.isWorkflowEvent = false) :
    Retold id n n events := by
  refine ⟨fun event member => .inl (nodes event member), Nat.le_refl n, ?_⟩
  rw [Nat.sub_self, List.range'_zero, List.filterMap_eq_nil_iff]
  intro event member
  cases event with
  | workflowRetrying => cases nodes _ member
  | _ => rfl

/-- Nothing is told. -/
theorem refl (id : String) (n : Nat) : Retold id n n [] :=
  .of_nodes fun _ member => absurd member List.not_mem_nil

theorem append (first : Retold id a b events) (second : Retold id b d more) :
    Retold id a d (events ++ more) := by
  refine ⟨fun event member => (List.mem_append.1 member).elim (first.own event) (second.own event),
    Nat.le_trans first.le second.le, ?_⟩
  have start : b + 1 = a + 1 + (b - a) := by have := first.le; omega
  have length : d - a = (b - a) + (d - b) := by
    have := first.le
    have := second.le
    omega
  rw [List.filterMap_append, first.counted, second.counted, start, List.range'_append_1, length]

/-- An execution is told to be run again. -/
theorem again (id : String) (n millis : Nat) (error : String) :
    Retold id n (n + 1) [.workflowRetrying id (n + 1) millis error] := by
  refine ⟨fun event member => ?_, Nat.le_succ n, ?_⟩
  · rw [List.mem_singleton.1 member]
    exact .inr ⟨_, _, _, rfl⟩
  · rw [Nat.add_sub_cancel_left]
    rfl

end Retold

/-- The event of an end says what the response says. -/
inductive Response.ToldAs (response : Response) : Event → Prop
  | completed (status : response.status = .completed) :
      ToldAs response (.workflowCompleted response.executionId response.time.shownMillis)
  | cancelled (status : response.status = .cancelled) :
      ToldAs response (.workflowCancelled response.executionId)
  | failed {error code : String} (status : response.status = .failed ∨ response.status = .timedOut)
      (herror : response.error = some error) (hcode : response.errorCode = some code) :
      ToldAs response (.workflowFailed response.executionId error code)

namespace Response

variable {response : Response}

theorem toldAs_of_completed (status : response.status = .completed) :
    response.ToldAs (Coordinator.endEvent response) := by
  unfold Coordinator.endEvent
  rw [status]
  exact .completed status

theorem toldAs_of_cancelled (status : response.status = .cancelled) :
    response.ToldAs (Coordinator.endEvent response) := by
  unfold Coordinator.endEvent
  rw [status]
  exact .cancelled status

theorem toldAs_of_failed (status : response.status = .failed ∨ response.status = .timedOut)
    {error code : String} (herror : response.error = some error)
    (hcode : response.errorCode = some code) :
    response.ToldAs (Coordinator.endEvent response) := by
  have same : Coordinator.endEvent response = .workflowFailed response.executionId error code := by
    unfold Coordinator.endEvent
    rw [herror, hcode]
    rcases status with status | status <;> rw [status] <;> rfl
  rw [same]
  exact .failed status herror hcode

end Response

/-- A run that begins tells of nothing but nodes. -/
theorem Run.tellsNodes_launch (engine : Engine) (root : Node) (limit : Option Duration)
    (s : RunState) : s.world.TellsNodes (Run.launch engine root limit s).1.world := by
  have acts : Acts engine .heeding root.ids s (Run.launch engine root limit s).1 :=
    Run.acts_launch Manner.noConfusion
  exact acts.tellsNodes

/-- The retries that are counted with what a session has come to. -/
def Move.retries : Move → Nat
  | .stays session => session.retries
  | .ends response => response.retries

namespace Session

/-- What a session comes to that is run. -/
inductive Follows (session : Session) (status : Status) : Move → Prop
  | stays {next : Session} (same : next.status = status) (request : next.request = session.request) :
      Follows session status (.stays next)
  | ends {response : Response} (told : response.ToldAs (Coordinator.endEvent response)) :
      Follows session status (.ends response)

variable {engine : Engine} {policy : Policy} {plan : Plan} {session other : Session} {world : World}
  {notes : List Note} {p : World × Move} {status : Status} {move : Move}

theorem Follows.congr (h : other.Follows status move) (request : other.request = session.request) :
    session.Follows status move := by
  cases h with
  | stays same own => exact .stays same (own.trans request)
  | ends told => exact .ends told

/-- A session that ends as a cancelled one says so. -/
theorem toldAs_cancelledResponse (session : Session) (world : World)
    (partialResult : Option Json) : (session.cancelledResponse world partialResult).ToldAs
      (Coordinator.endEvent (session.cancelledResponse world partialResult)) :=
  Response.toldAs_of_cancelled rfl

/-- A fault other than a cancellation is that of a failure, or that of a time limit. -/
theorem status_ofFault {fault : Fault} (plain : fault.isCancelled = false) :
    Status.ofFault fault = .failed ∨ Status.ofFault fault = .timedOut := by
  cases fault with
  | cancelled id => cases plain
  | workflowTimeout millis => exact .inr rfl
  | _ => exact .inl rfl

/-- After a step of a run nothing more is told than that there is to be another run, and what that
tells. -/
theorem After.tells {q : RunState × Run.Stage}
    (after : After engine policy plan session q notes p) :
    ∃ events, q.1.world.Tells p.1 events ∧ Retold session.id session.retries p.2.retries events ∧
      session.Follows session.status p.2 := by
  have silent (session : Session) {world : World} {move : Move}
      (counted : move.retries = session.retries) (follows : session.Follows session.status move) :
      ∃ events, world.Tells world events ∧
        Retold session.id session.retries move.retries events ∧
        session.Follows session.status move :=
    ⟨[], .of_eq rfl, counted ▸ .refl _ _, follows⟩
  induction after with
  | waits => exact silent _ rfl (.stays rfl rfl)
  | completes good =>
    exact silent _ (retries_back _ _) (.ends (Response.toldAs_of_completed rfl))
  | stops reason partialResult =>
    exact silent _ (retries_back _ _) (.ends (toldAs_cancelledResponse _ _ _))
  | fails plain final =>
    exact silent _ (retries_back _ _)
      (.ends (Response.toldAs_of_failed (status_ofFault plain) rfl rfl))
  | @pauses session s fault live retryable more long =>
    exact ⟨_, World.tells_emit s.world _, .again session.id session.retries _ _, .stays rfl rfl⟩
  | @repeats session s fault notes p live retryable more short next ih =>
    -- The run that begins tells of its nodes before anything else follows.
    obtain ⟨nodes, begun, plain⟩ := Run.tellsNodes_launch engine plan.root plan.timeout
      ((session.retrying s).outset (session.announced policy fault s))
    obtain ⟨events, tells, retold, follows⟩ := ih
    exact ⟨_, (World.tells_emit s.world _).trans (begun.trans tells),
      (Retold.again session.id session.retries _ _).append ((Retold.of_nodes plain).append retold),
      follows.congr rfl⟩

/-- The runs of a session that may begin tell of nodes and of each other. -/
theorem tells_execute (engine : Engine) (policy : Policy) (plan : Plan) (session : Session)
    (world : World) :
    ∃ events, world.Tells (execute engine policy plan (plan.maxRetries - session.retries) world
        session).1 events ∧
      Retold session.id session.retries (execute engine policy plan
        (plan.maxRetries - session.retries) world session).2.retries events ∧
      session.Follows session.status (execute engine policy plan
        (plan.maxRetries - session.retries) world session).2 := by
  obtain ⟨notes, after⟩ := exists_execute engine policy plan session world
  obtain ⟨nodes, begun, plain⟩ := Run.tellsNodes_launch engine plan.root plan.timeout
    (session.outset world)
  obtain ⟨events, tells, retold, follows⟩ := after.tells
  exact ⟨_, begun.trans tells, (Retold.of_nodes plain).append retold, follows.congr rfl⟩

/-- What a session tells in a step, and what it comes to. -/
inductive Speaks (session : Session) (world : World) : List Event → World × Move → Prop
  /-- It ends without any run. -/
  | declines {response : Response} (phase : session.phase = .admitted)
      (retries : session.retries = 0 → response.retries = 0)
      (told : response.ToldAs (Coordinator.endEvent response)) :
      Speaks session world [] (world, .ends response)
  | begins {nodes : Nat} {events : List Event} {p : World × Move} (phase : session.phase = .admitted)
      (tells : world.Tells p.1
        (.workflowStarted session.request.workflowId session.id nodes :: events))
      (retold : Retold session.id session.retries p.2.retries events)
      (follows : session.Follows .running p.2) :
      Speaks session world
        (.workflowStarted session.request.workflowId session.id nodes :: events) p
  | goesOn {events : List Event} {p : World × Move} (waits : session.phase ≠ .queued)
      (begun : session.phase ≠ .admitted) (tells : world.Tells p.1 events)
      (retold : Retold session.id session.retries p.2.retries events)
      (follows : session.Follows session.status p.2) : Speaks session world events p

theorem Speaks.tells {events : List Event} (speaks : session.Speaks world events p) :
    world.Tells p.1 events := by
  cases speaks with
  | declines => exact .of_eq rfl
  | begins _ tells => exact tells
  | goesOn _ _ tells => exact tells

theorem speaks_proceed (phase : session.phase = .admitted) :
    ∃ events, session.Speaks world events (session.proceed engine policy world) := by
  unfold proceed
  split
  · exact ⟨[], .declines phase (fun same => same) (toldAs_cancelledResponse session world none)⟩
  · dsimp only
    split
    · exact ⟨[], .declines phase (fun _ => rfl) (Response.toldAs_of_failed (.inl rfl) rfl rfl)⟩
    · next root parsed =>
      split
      · unfold checkResponse
        split
        · exact ⟨[], .declines phase (fun _ => rfl) (Response.toldAs_of_completed rfl)⟩
        · exact ⟨[], .declines phase (fun _ => rfl) (Response.toldAs_of_failed (.inl rfl) rfl rfl)⟩
      · split
        · exact ⟨[], .declines phase (fun _ => rfl) (Response.toldAs_of_failed (.inl rfl) rfl rfl)⟩
        · split
          · exact ⟨[], .declines phase (fun _ => rfl) (Response.toldAs_of_completed rfl)⟩
          · obtain ⟨events, tells, retold, follows⟩ := tells_execute engine policy
              ⟨root, Checker.validate ⟨policy.limits, policy.catalog⟩ root,
                (session.request.maxRetries.getD policy.maxRetries).toNat,
                session.request.timeout.or policy.timeout⟩
              { session with status := .running }
              (world.emit (.workflowStarted session.request.workflowId session.id root.count))
            exact ⟨_, .begins phase ((world.tells_emit _).trans tells) retold (follows.congr rfl)⟩

end Session

namespace Coordinator

variable {c : Coordinator} {session : Session} {p : World × Move}

/-- Every step of a session is told. -/
theorem Steps.speaks {deaf : Bool} (steps : c.Steps session deaf p)
    (sound : session.Sound c.world) :
    ∃ events, session.Speaks c.world events p := by
  have waits : session.phase ≠ .queued := steps.phase_ne
  unfold Session.Sound at sound
  cases steps with
  | begin phase => exact Session.speaks_proceed phase
  | @goOn plan activity limit phase stimulus =>
    simp only [phase] at sound
    obtain ⟨context, runs⟩ := sound
    have acts : Acts c.engine .deaf plan.root.ids ⟨c.world, context⟩
        (Run.step c.engine ⟨c.world, context⟩ (.active activity limit) stimulus).1 :=
      Run.acts_step_deaf runs.sound stimulus
    obtain ⟨nodes, went, plain⟩ := acts.tellsNodes
    obtain ⟨notes, after⟩ := Session.exists_after c.engine c.policy plan session
      (Run.step c.engine ⟨c.world, context⟩ (.active activity limit) stimulus)
    obtain ⟨events, tells, retold, follows⟩ := after.tells
    rw [Session.goOn, runs.current, Option.getD_some]
    have begun : session.phase ≠ .admitted := by simp [phase]
    exact ⟨_, .goesOn waits begun (went.trans tells) ((Retold.of_nodes plain).append retold) follows⟩
  | @rest plan ticket due phase =>
    have begun : session.phase ≠ .admitted := by simp [phase]
    rw [Session.rested]
    split
    · exact ⟨[], .goesOn waits begun (.of_eq rfl) (.refl _ _)
        (.ends (Session.toldAs_cancelledResponse ..))⟩
    · obtain ⟨events, tells, retold, follows⟩ :=
        Session.tells_execute c.engine c.policy plan session c.world
      exact ⟨events, .goesOn waits begun tells retold follows⟩

end Coordinator

end Stepwise
