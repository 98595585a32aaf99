import Stepwise.Coordinator.Attempt
import Stepwise.Proofs.Run.Calls
import Stepwise.Proofs.Run.Cancellation
import Stepwise.Proofs.Validation

/-!
# Sessions

Whatever a session through the gate does, it makes its calls in its own name, and none if it is
cancelled, unless it is deaf to that: the end of a delay may be noticed before a cancellation that
it meets. It stays the same session, in a sound state of its run, or it ends with a response of its
own, and that is the response of a cancelled one if the session was cancelled, deaf or not, or if
one of its own answers has asked for that. `Goes` says so, and there is a lemma for each way in
which a session goes on.
-/

namespace Stepwise

/-- The response of a cancelled request. -/
structure Response.IsCancelled (response : Response) : Prop where
  status : response.status = .cancelled
  success : response.success = false
  errorCode : response.errorCode = some "ORCA-032"

namespace Session

/-- A session waits in a run of its own, which is cancelled if the session is. -/
structure Runs (session : Session) (world : World) (root : Node) (activity : Activity)
    (limit : Option Run.TimeLimit) (context : Context) : Prop where
  current : session.context = some context
  own : context.executionId = session.id
  obeys : session.cancelled = true → context.cancelled = true
  distinct : root.ids.Nodup
  sound : Run.Sound root ⟨world, context⟩ (.active activity limit)

/-- A session in a world, with what its phase tells. -/
def Sound (session : Session) (world : World) : Prop :=
  match session.phase with
  | .queued | .admitted => True
  | .executing plan activity limit =>
    ∃ context, session.Runs world plan.root activity limit context
  | .pausing plan _ _ => plan.root.ids.Nodup

/-- What a session adds to a world: tickets, and calls in its own name. If it is cancelled and not
deaf to that, it makes none. Nothing is left put off. -/
structure Adds (manner : Manner) (session : Session) (world world' : World) : Prop where
  tickets : world.tickets ≤ world'.tickets
  settled : world.openings = [] → world'.openings = []
  calls : ∃ made, world'.calls = world.calls ++ made ∧
    (∀ entry ∈ made, entry.context.executionId = session.id) ∧
    (manner ≠ .deaf → session.cancelled = true → made = [])

/-- What a session may come to. -/
inductive Comes (session : Session) (world : World) : Move → Prop
  | stays {next : Session} (handle : next.handle = session.handle) (id : next.id = session.id)
      (cancelled : next.cancelled = session.cancelled) (through : next.phase ≠ .queued)
      (begun : next.phase ≠ .admitted) (sound : next.Sound world) :
      Comes session world (.stays next)
  | ends {response : Response} (own : response.executionId = session.id)
      (obeys : session.cancelled = true → response.IsCancelled) :
      Comes session world (.ends response)

/-- A session goes on from one world to another, and comes to something. What its answers ask for
in the meantime is heeded if it ends. -/
structure Goes (manner : Manner) (session : Session) (world : World) (p : World × Move) :
    Prop where
  adds : session.Adds manner world p.1
  comes : session.Comes p.1 p.2
  asked : ∀ response, p.2 = .ends response → session.id ∉ world.requests →
    session.id ∈ p.1.requests → response.IsCancelled

variable {engine : Engine} {manner : Manner} {policy : Policy} {plan : Plan}
  {session other : Session} {world middle later : World}

/-! ## Worlds -/

theorem Adds.of_eq (tickets : later.tickets = world.tickets) (calls : later.calls = world.calls)
    (openings : later.openings = world.openings) : session.Adds manner world later :=
  ⟨Nat.le_of_eq tickets.symm, openings.trans, [], calls.trans (List.append_nil _).symm,
    fun _ member => absurd member List.not_mem_nil, fun _ _ => rfl⟩

theorem Adds.trans (first : session.Adds manner world middle)
    (second : session.Adds manner middle later) : session.Adds manner world later := by
  obtain ⟨made, calls, own, obeys⟩ := first.calls
  obtain ⟨more, calls', own', obeys'⟩ := second.calls
  refine ⟨Nat.le_trans first.tickets second.tickets,
    fun settled => second.settled (first.settled settled), made ++ more, ?_, ?_,
    fun hearing cancelled => ?_⟩
  · rw [calls', calls, List.append_assoc]
  · exact fun entry member => (List.mem_append.1 member).elim (own entry) (own' entry)
  · rw [obeys hearing cancelled, obeys' hearing cancelled, List.append_nil]

theorem Goes.after {p : World × Move} (adds : session.Adds manner world middle)
    (quiet : session.id ∉ world.requests → session.id ∉ middle.requests)
    (h : session.Goes manner middle p) : session.Goes manner world p :=
  ⟨adds.trans h.adds, h.comes, fun response ends before => h.asked response ends (quiet before)⟩

/-- A session that stays, or ends by itself, asks for nothing. -/
theorem Goes.of_comes {move : Move} (comes : session.Comes world move) :
    session.Goes manner world (world, move) :=
  ⟨.of_eq rfl rfl rfl, comes, fun _ _ before asked => absurd asked before⟩

/-- What one session comes to another does that differs in its counts, context and phase. -/
theorem Goes.congr {p : World × Move} (h : other.Goes manner world p)
    (handle : other.handle = session.handle) (id : other.id = session.id)
    (cancelled : other.cancelled = session.cancelled) : session.Goes manner world p := by
  obtain ⟨world', move⟩ := p
  obtain ⟨⟨tickets, settled, made, calls, own, obeys⟩, comes, asked⟩ := h
  refine ⟨⟨tickets, settled, made, calls, fun entry member => (own entry member).trans id, ?_⟩, ?_,
    id ▸ asked⟩
  · rw [← cancelled]
    exact obeys
  · cases comes with
    | stays handle' id' cancelled' through begun sound =>
      exact .stays (handle'.trans handle) (id'.trans id) (cancelled'.trans cancelled) through begun
        sound
    | ends own obeys =>
      refine .ends (own.trans id) ?_
      rw [← cancelled]
      exact obeys

/-- What others do to a world leaves a session sound. -/
theorem Sound.mono (h : session.Sound world) (tickets : world.tickets ≤ later.tickets) :
    session.Sound later := by
  unfold Sound at h ⊢
  split
  · trivial
  · trivial
  · next phase =>
    simp only [phase] at h
    obtain ⟨context, runs⟩ := h
    refine ⟨context, runs.current, runs.own, runs.obeys, runs.distinct, ?_⟩
    cases runs.sound with
    | active fits alive own given =>
      exact .active fits alive own fun ticket held => Nat.lt_of_lt_of_le (given ticket held) tickets
  · next phase =>
    simp only [phase] at h
    exact h

/-- A session stays sound when it is cancelled. -/
theorem Sound.cancel (h : session.Sound world) (now : Nat) : (session.cancel now).Sound world := by
  have same : (session.cancel now).phase = session.phase := rfl
  unfold Sound at h ⊢
  rw [same]
  split
  · trivial
  · trivial
  · next phase =>
    simp only [phase] at h
    obtain ⟨context, runs⟩ := h
    -- The context is what the run itself would leave if it was cancelled now.
    let s : RunState := ⟨{ world with now := now }, context⟩
    have current : (session.cancel now).context = some s.cancelExecution.context := by
      exact congrArg (Option.map fun context : Context =>
        (context.cancel.cancelRunning now).2) runs.current
    refine ⟨_, current, s.executionId_cancelExecution.trans runs.own,
      fun _ => s.cancelled_cancelExecution, runs.distinct, ?_⟩
    cases runs.sound with
    | active fits alive own given =>
      have fits : s.context.Fits _ _ _ := fits
      obtain ⟨live, fits', alive'⟩ := Run.fits_applyAll fits alive [.cancelExecution]
      exact .active fits' alive' own given
  · next phase =>
    simp only [phase] at h
    exact h

/-! ## Runs -/

theorem isCancelled_cancelledResponse (session : Session) (world : World)
    (partialResult : Option Json) : (session.cancelledResponse world partialResult).IsCancelled :=
  ⟨rfl, rfl, rfl⟩

/-- A session may end as a cancelled one whatever it was. -/
theorem Comes.of_cancelled (session : Session) {other : Session} (id : other.id = session.id)
    (partialResult : Option Json) :
    session.Comes world (.ends (other.cancelledResponse later partialResult)) :=
  .ends id fun _ => isCancelled_cancelledResponse other later partialResult

theorem cancelled_notice (session : Session) (world : World) :
    (session.notice world).cancelled =
      (session.cancelled || world.requests.contains session.id) := by
  unfold notice
  split
  · next asked => rw [asked, Bool.or_true]
  · next quiet => rw [eq_false_of_ne_true quiet, Bool.or_false]

theorem id_notice (session : Session) (world : World) : (session.notice world).id = session.id := by
  unfold notice
  split <;> rfl

theorem handle_notice (session : Session) (world : World) :
    (session.notice world).handle = session.handle := by
  unfold notice
  split <;> rfl

/-- A failed run is followed by a pause, or at once by the next run. -/
theorem goes_pauseAfter {again : World → Session → World × Move}
    (next : ∀ world (session : Session), session.Goes manner world (again world session))
    (distinct : plan.root.ids.Nodup) (session : Session) (fault : Fault) (world : World) :
    session.Goes manner world (pauseAfter policy plan again session fault world) := by
  unfold pauseAfter
  dsimp only
  generalize Event.workflowRetrying _ _ _ _ = event
  have told : session.Adds manner world (world.emit event) := .of_eq rfl rfl rfl
  split
  · exact Goes.after told (fun before => before) (Goes.congr (next _ _) rfl rfl rfl)
  · refine ⟨⟨Nat.le_succ _, fun settled => settled, [], (List.append_nil _).symm,
      fun _ member => absurd member List.not_mem_nil, fun _ _ => rfl⟩, ?_,
      fun _ ends => nomatch ends⟩
    exact .stays rfl rfl rfl nofun nofun distinct

/-- The acts of a run in the name of a session are what the session adds to the world. The run is
deaf only if the session may be, or is not cancelled. -/
theorem adds_of_acts {tone : Manner} {ids : List String} {s s' : RunState}
    (acts : Acts engine tone ids s s') (own : s.context.executionId = session.id)
    (obeys : session.cancelled = true → s.context.cancelled = true)
    (settled : s.world.openings = [] → s'.world.openings = [])
    (hears : manner ≠ .deaf → session.cancelled = true → tone ≠ .deaf) :
    session.Adds manner s.world s'.world := by
  obtain ⟨made, calls, named, dead⟩ := acts.calls
  refine ⟨acts.tickets_le, settled, made, calls,
    fun entry member => (named entry member).trans own, ?_⟩
  exact fun hearing cancelled => dead (hears hearing cancelled) (obeys cancelled)

/-- After a step of its run a session goes on, and a cancelled one ends as such with its run. -/
theorem goes_afterStep {again : Option (World → Session → World × Move)}
    (next : ∀ make ∈ again, ∀ world (session : Session),
      session.Goes manner world (make world session))
    (distinct : plan.root.ids.Nodup) {tone : Manner} {s : RunState} {p : RunState × Run.Stage}
    (acts : Acts engine tone plan.root.ids s p.1) (sound : Run.Sound plan.root p.1 p.2)
    (settled : s.world.openings = [] → p.1.world.openings = [])
    (named : s.context.executionId = session.id)
    (heeds : session.cancelled = true → s.context.cancelled = true)
    (hears : manner ≠ .deaf → session.cancelled = true → tone ≠ .deaf) :
    session.Goes manner s.world (afterStep policy plan again session p) := by
  have adds : session.Adds manner s.world p.1.world := adds_of_acts acts named heeds settled hears
  have own : p.1.context.executionId = session.id := acts.executionId.trans named
  have obeys (cancelled : session.cancelled = true) : p.1.context.cancelled = true :=
    acts.cancelled (heeds cancelled)
  have granted (before : session.id ∉ s.world.requests) (asked : session.id ∈ p.1.world.requests) :
      p.1.context.cancelled = true :=
    acts.granted (fun inside => absurd (named ▸ inside) before) (own ▸ asked)
  obtain ⟨s', stage⟩ := p
  cases stage with
  | active activity limit =>
    refine ⟨adds, .stays rfl rfl rfl nofun nofun ?_, fun _ ends => nomatch ends⟩
    exact ⟨s'.context, rfl, own, obeys, distinct, sound⟩
  | ended outcome =>
    have ending (cancelled : s'.context.cancelled = true) : Run.Cancelled outcome :=
      sound.outcome cancelled outcome rfl
    simp only [afterStep]
    have id := id_notice { session with context := some s'.context } s'.world
    have handle := handle_notice { session with context := some s'.context } s'.world
    have told := cancelled_notice { session with context := some s'.context } s'.world
    generalize Session.notice { session with context := some s'.context } s'.world = noticed at *
    have dead (partialResult : Option Json) : session.Goes manner s.world
        (s'.world, .ends (noticed.cancelledResponse s'.world partialResult)) := by
      refine ⟨adds, .of_cancelled session id _, fun response ends _ _ => ?_⟩
      cases ends
      exact isCancelled_cancelledResponse ..
    have alive {response : Response} (own : response.executionId = session.id)
        (live : ¬s'.context.cancelled = true) :
        session.Goes manner s.world (s'.world, .ends response) :=
      ⟨adds, .ends own fun cancelled => absurd (obeys cancelled) live,
        fun _ _ before asked => absurd (granted before asked) live⟩
    cases outcome with
    | ok result =>
      dsimp only
      split
      · exact dead _
      · next completed =>
        exact alive id fun cancelled => completed (decide_eq_true (ending cancelled))
    | error fault =>
      dsimp only
      split
      · exact dead _
      · next calm =>
        rw [Bool.or_eq_true, not_or, Bool.not_eq_true, told, Bool.or_eq_false_iff] at calm
        obtain ⟨⟨live, unasked⟩, -⟩ := calm
        split
        · next make _ =>
          refine Goes.after adds (fun _ asked => ?_) ((goes_pauseAfter (next make rfl) distinct
            noticed fault s'.world).congr handle id (told.trans ?_))
          · rw [List.contains_iff_mem.2 asked] at unasked
            cases unasked
          · rw [live, unasked]
            rfl
        · refine ⟨adds, .ends id fun cancelled => ?_, fun _ _ _ asked => ?_⟩
          · rw [live] at cancelled
            cases cancelled
          · rw [List.contains_iff_mem.2 asked] at unasked
            cases unasked

/-- A run that begins hears of a cancellation that was before. -/
theorem goes_launch {again : Option (World → Session → World × Move)}
    (next : ∀ make ∈ again, ∀ world (session : Session),
      session.Goes manner world (make world session))
    (distinct : plan.root.ids.Nodup) (world : World) (session : Session) :
    session.Goes manner world (execute.launch engine policy plan again world session) := by
  have acts : Acts engine .heeding plan.root.ids ⟨world, session.freshContext⟩
      (Run.launch engine plan.root plan.timeout ⟨world, session.freshContext⟩).1 :=
    Run.acts_launch Manner.noConfusion
  have untouched := session.freshContext.untouched_of_nodes rfl plan.root
  let begun : Session := { session with attempt := session.retries }
  have goes : begun.Goes manner world (afterStep policy plan again begun
      (Run.launch engine plan.root plan.timeout ⟨world, session.freshContext⟩)) :=
    goes_afterStep next distinct acts (Run.sound_launch untouched distinct) Run.settled_launch rfl
      (fun cancelled => cancelled) fun _ _ => Manner.noConfusion
  exact goes.congr rfl rfl rfl

theorem goes_execute (distinct : plan.root.ids.Nodup) (left : Nat) (world : World)
    (session : Session) :
    session.Goes manner world (execute engine policy plan left world session) := by
  induction left generalizing world session with
  | zero =>
    rw [execute]
    exact goes_launch (fun _ member => absurd member (Option.not_mem_none _)) distinct world session
  | succ left ih =>
    rw [execute]
    refine goes_launch (fun make member => ?_) distinct world session
    cases Option.mem_some.1 member
    exact ih

theorem goes_goOn {activity : Activity} {limit : Option Run.TimeLimit} {context : Context}
    (runs : session.Runs world plan.root activity limit context) {stimulus : Run.Stimulus}
    (heard : manner ≠ .deaf → session.cancelled = true → stimulus.isDeaf = false) :
    session.Goes manner world (session.goOn engine policy plan activity limit world stimulus) := by
  simp only [goOn, runs.current, Option.getD_some]
  obtain ⟨tone, acts, hears⟩ : ∃ tone : Manner, Acts engine tone plan.root.ids ⟨world, context⟩
      (Run.step engine ⟨world, context⟩ (.active activity limit) stimulus).1 ∧
      (manner ≠ .deaf → session.cancelled = true → tone ≠ .deaf) := by
    by_cases dead : manner ≠ .deaf ∧ session.cancelled = true
    · exact ⟨.heeding, Run.acts_step Manner.noConfusion runs.sound fun _ _ => heard dead.1 dead.2,
        fun _ _ => Manner.noConfusion⟩
    · exact ⟨.deaf, Run.acts_step_deaf runs.sound stimulus,
        fun hearing cancelled => absurd ⟨hearing, cancelled⟩ dead⟩
  refine goes_afterStep (fun make member => ?_) runs.distinct acts
    (Run.sound_step runs.sound runs.distinct stimulus)
    (fun settled => Run.settled_step runs.sound settled stimulus) runs.own runs.obeys hears
  unfold again? at member
  split at member
  · cases member
  · cases Option.mem_some.1 member
    exact goes_execute runs.distinct _

/-- A session that was cancelled in its pause makes no call, even if the end of the pause is noticed
before. -/
theorem goes_rested (distinct : plan.root.ids.Nodup) (deaf : Bool) (world : World)
    (session : Session) :
    session.Goes manner world (session.rested engine policy plan deaf world) := by
  unfold rested
  split
  · exact .of_comes (.of_cancelled session rfl _)
  · exact goes_execute distinct _ world session

theorem goes_proceed (world : World) (session : Session) :
    session.Goes manner world (session.proceed engine policy world) := by
  unfold proceed
  split
  · exact .of_comes (.of_cancelled session rfl _)
  · next calm =>
    have ends {response : Response} (own : response.executionId = session.id) :
        session.Goes manner world (world, .ends response) :=
      .of_comes (.ends own fun cancelled => absurd cancelled calm)
    dsimp only
    split
    · exact ends rfl
    · split
      · refine ends ?_
        unfold checkResponse
        split <;> rfl
      · split
        · exact ends rfl
        · split
          · exact ends rfl
          · next valid _ =>
            rw [Bool.not_eq_true, Bool.not_eq_false'] at valid
            generalize Event.workflowStarted _ _ _ = event
            have told : session.Adds manner world (world.emit event) := .of_eq rfl rfl rfl
            refine Goes.after told (fun before => before)
              (Goes.congr (goes_execute ?_ _ _ _) rfl rfl rfl)
            exact Checker.distinct_of_isValid valid

/-! ## Cancelled sessions -/

/-- A cancelled session ends with its run. -/
theorem ends_afterStep (cancelled : session.cancelled = true)
    {again : Option (World → Session → World × Move)} {p : RunState × Run.Stage}
    (ended : ∃ outcome, p.2 = .ended outcome) :
    ∃ response, (afterStep policy plan again session p).2 = .ends response := by
  obtain ⟨s, stage⟩ := p
  obtain ⟨outcome, rfl⟩ := ended
  simp only [afterStep]
  have told := cancelled_notice { session with context := some s.context } s.world
  generalize Session.notice { session with context := some s.context } s.world = noticed at *
  cases outcome with
  | ok result =>
    dsimp only
    split
    · exact ⟨_, rfl⟩
    · exact ⟨_, rfl⟩
  | error fault =>
    dsimp only
    rw [told, cancelled, Bool.true_or, Bool.true_or, if_pos rfl]
    exact ⟨_, rfl⟩

theorem ends_goOn (cancelled : session.cancelled = true) {activity : Activity}
    {limit : Option Run.TimeLimit} {context : Context} (current : session.context = some context)
    {stimulus : Run.Stimulus} (ended : ∃ outcome,
      (Run.step engine ⟨world, context⟩ (.active activity limit) stimulus).2 = .ended outcome) :
    ∃ response,
      (session.goOn engine policy plan activity limit world stimulus).2 = .ends response := by
  rw [goOn, current, Option.getD_some]
  exact ends_afterStep cancelled ended

/-- A cancelled session in a run ends with whatever comes next by the clock. -/
theorem Runs.ends_by_clock (engine : Engine) (policy : Policy) {activity : Activity}
    {limit : Option Run.TimeLimit} {context : Context}
    (runs : session.Runs world plan.root activity limit context)
    (cancelled : session.cancelled = true) :
    ∃ due stimulus,
      Run.next? world.now session.isHaltedWithin (.active activity limit) = some (due, stimulus) ∧
      ∀ time, ∃ response,
        (session.goOn engine policy plan activity limit (world.advancedTo time) stimulus).2 =
          .ends response := by
  cases runs.sound with
  | active fits alive own given =>
    obtain ⟨due, stimulus, next, ends⟩ := Run.ends_by_clock fits own (runs.obeys cancelled) _ limit
    refine ⟨due, stimulus, next, fun time => ends_goOn cancelled runs.current ?_⟩
    obtain ⟨outcome, ended, -⟩ := ends time
    exact ⟨outcome, ended⟩

/-- A cancelled session that waits in a run for anything but answers ends when it has its turn. -/
theorem Runs.ends_of_heed {activity : Activity} {limit : Option Run.TimeLimit} {context : Context}
    (runs : session.Runs world plan.root activity limit context)
    (cancelled : session.cancelled = true) (napping : activity.firstNap?.isSome = true) :
    ∃ response, (session.goOn engine policy plan activity limit world .heed).2 =
      .ends response := by
  cases runs.sound with
  | active fits alive own given =>
    obtain ⟨ticket, nap⟩ := Option.isSome_iff_exists.1 napping
    obtain ⟨result, ended, -⟩ :=
      Run.ends_of_heed ⟨world, context⟩ fits own (runs.obeys cancelled) nap limit
    exact ends_goOn cancelled runs.current ⟨_, ended⟩

theorem ends_rested (cancelled : session.cancelled = true) (world : World) :
    ∃ response, (session.rested engine policy plan false world).2 = .ends response := by
  rw [rested, cancelled]
  exact ⟨_, rfl⟩

theorem ends_proceed (cancelled : session.cancelled = true) (world : World) :
    ∃ response, (session.proceed engine policy world).2 = .ends response := by
  rw [proceed, if_pos cancelled]
  exact ⟨_, rfl⟩

end Session

end Stepwise
