import Mathlib.Data.List.Induction
import Stepwise.Proofs.Coordinator.Accounts
import Stepwise.Proofs.Coordinator.Cancellation

/-!
# Retries

How often a request is run, and what it is told. A request that nobody cancels is run until a run
completes, fails for good, or may not be followed by another (`runs_uncancelled`). The retries that
an answer gives are the runs after the first one, unless the request was cancelled in the pause
before a run that has not begun: that run is counted as well (`retries_of_answer`).
-/

namespace Stepwise

/-- The pauses of a policy double up to sixteen times. A pause is over with the first millisecond at
which its length has passed, if the clock can tell it. -/
structure Policy.Paces (policy : Policy) : Prop where
  doubles : ∀ retries, (policy.pause retries).nanos =
    min greatestNanos (policy.backoff.nanos * Nat.pow 2 (min retries 16))
  exact : ∀ retries (world : World),
    world.now / millisPerSecond + (policy.pause retries).secs < signedBound → ∀ time,
      world.afterPause (policy.pause retries) ≤ time ↔
        world.now * nanosPerMilli + (policy.pause retries).nanos ≤ time * nanosPerMilli

theorem Policy.paces (policy : Policy) : policy.Paces :=
  ⟨fun _ => Nat.min_comm _ _, fun _ _ told => World.afterPause_le_iff told⟩

namespace Note

/-- The state in which a run begins, if one is noted. -/
def start? : Note → Option RunState
  | .launched start => some start
  | _ => none

/-- The note of a pause between two runs. -/
def isPause : Note → Bool
  | .paused _ => true
  | _ => false

end Note

/-- The states in which the runs of a request have begun. -/
def startsOf (notes : List Note) : List RunState := notes.filterMap Note.start?

@[simp] theorem startsOf_taken (session : Session) (notes : List Note) :
    startsOf (.taken session :: notes) = startsOf notes := rfl

@[simp] theorem startsOf_nil : startsOf [] = [] := rfl

@[simp] theorem startsOf_launched (start : RunState) (notes : List Note) :
    startsOf (.launched start :: notes) = start :: startsOf notes := rfl

@[simp] theorem startsOf_answered (response : Response) (record : Option ExecutionRecord)
    (notes : List Note) : startsOf (.answered response record :: notes) = startsOf notes := rfl

@[simp] theorem startsOf_notes (run : Ran) : startsOf run.notes = [run.start] := rfl

@[simp] theorem startsOf_paused (length : Duration) (notes : List Note) :
    startsOf (.paused length :: notes) = startsOf notes := rfl

@[simp] theorem startsOf_append (notes more : List Note) :
    startsOf (notes ++ more) = startsOf notes ++ startsOf more := List.filterMap_append

@[simp] theorem startsOf_retold (policy : Policy) (runs : List Ran) :
    startsOf (retold policy runs) = runs.map Ran.start := by
  induction runs using List.reverseRecOn with
  | nil => rfl
  | append_singleton runs run ih => simp [ih]

@[simp] theorem taken_notMem_notes (run : Ran) (session : Session) :
    .taken session ∉ run.notes := by
  simp [Ran.notes]

@[simp] theorem taken_notMem_retold (policy : Policy) (runs : List Ran) (session : Session) :
    .taken session ∉ retold policy runs := by
  intro member
  obtain ⟨⟨run, retries⟩, -, inside⟩ := List.mem_flatMap.1 member
  simp at inside

/-- A request is taken once. -/
theorem Told.eq_of_taken {engine : Engine} {policy : Policy} {taken other session : Session}
    {world : World} {phase : SessionPhase} {notes : List Note}
    (h : Told engine policy other world session phase notes) (member : .taken taken ∈ notes) :
    taken = other := by
  cases h <;> simpa using member

theorem Closed.eq_of_taken {engine : Engine} {policy : Policy} {taken other : Session}
    {struck : Prop} {response : Response} {notes : List Note}
    (h : Closed engine policy other struck response notes) (member : .taken taken ∈ notes) :
    taken = other := by
  cases h <;> simpa using member

/-- A run that begins with nothing but the parameters and that nobody disturbs has an outcome that
is no cancellation, if no answer cancels it. -/
theorem Begins.uncancelled {engine : Engine} {policy : Policy} {taken : Session} {plan : Plan}
    {before : List Ran} {final : Ran} (begins : Begins policy taken before final.start)
    (planned : Planned policy taken.request plan) (spares : engine.executor.Spares taken.id)
    (went : Run.Undisturbed engine plan.root plan.timeout final.start
      (final.last, .ended final.outcome)) : Run.Uncancelled final.outcome := by
  have calm : Run.Calm taken.id final.start none := by
    refine ⟨?_, ?_, ?_, nofun⟩
    · rw [begins.fresh]
      rfl
    · rw [begins.fresh]
      rfl
    · rw [begins.settled]
      rfl
  have untouched : final.start.context.Untouched plan.root :=
    final.start.context.untouched_of_nodes (by rw [begins.fresh]; rfl) plan.root
  exact went.spared spares calm untouched planned.distinct

namespace Coordinator

/-- What follows the failed runs of a request that nobody cancels. Its session waits for its first
run, has a run, or rests until the next one; or it has its answer. -/
inductive Continues (c : Coordinator) (engine : Engine) (policy : Policy) (handle : Nat)
    (taken : Session) (plan : Plan) (failed : List Ran) : List Note → Prop
  | waits {session : Session} (member : session ∈ c.sessions) (own : session.handle = handle)
      (phase : session.phase = .queued ∨ session.phase = .admitted) (first : failed = []) :
      Continues c engine policy handle taken plan failed []
  /-- The next run begins when the pause is over. -/
  | rests {session : Session} (member : session ∈ c.sessions) (own : session.handle = handle)
      {last : Ran} (after : failed.getLast? = some last) {ticket due : Nat}
      (phase : session.phase = .pausing plan ticket due)
      (past : due = last.last.world.afterPause (policy.pause (failed.length - 1)))
      (next : ∃ start notes p,
        c.ring ⟨due, handle, .wake ⟨ticket, false⟩⟩ = (c.asOf due).settle session p ∧
          (c.asOf due).Tells session (.launched start :: notes) p) :
      Continues c engine policy handle taken plan failed []
  | runs {session : Session} (member : session ∈ c.sessions) (own : session.handle = handle)
      {start s : RunState} {activity : Activity} {bound : Option Run.TimeLimit}
      (begins : Begins policy taken failed start)
      (phase : session.phase = .executing plan activity bound)
      (current : session.context = some s.context)
      (went : Run.Undisturbed engine plan.root plan.timeout start (s, .active activity bound)) :
      Continues c engine policy handle taken plan failed [.launched start]
  /-- The last run has completed. -/
  | completes {e : End} (member : e ∈ c.ends) (own : e.handle = handle) {final : Ran}
      (begins : Begins policy taken failed final.start)
      (went : Run.Undisturbed engine plan.root plan.timeout final.start
        (final.last, .ended final.outcome)) {result : RunResult}
      (outcome : final.outcome = .ok result) (good : result.isCancelled = false)
      (status : e.response.status = .completed)
      (shown : e.response.result = some (.obj final.last.context.results))
      (record : Option ExecutionRecord) :
      Continues c engine policy handle taken plan failed
        (final.notes ++ [.answered e.response record])
  /-- The last run has failed, for good or since there may be no other. -/
  | fails {e : End} (member : e ∈ c.ends) (own : e.handle = handle) {final : Ran}
      (begins : Begins policy taken failed final.start)
      (went : Run.Undisturbed engine plan.root plan.timeout final.start
        (final.last, .ended final.outcome)) {fault : Fault} (outcome : final.outcome = .error fault)
      (plain : fault.isCancelled = false)
      (last : fault.isRetryable = true → failed.length = plan.maxRetries)
      (status : e.response.status = .ofFault fault) (record : Option ExecutionRecord) :
      Continues c engine policy handle taken plan failed
        (final.notes ++ [.answered e.response record])

variable {policy : Policy} {executor : Executor} {c : Coordinator} {log : List Remark}
  {handle : Nat} {taken : Session}

/-- A request that has been taken has a session or an end, and of either it is known what was
noted. -/
theorem Chronicle.cases_of_taken (chronicle : Chronicle policy executor c log)
    (accepted : .taken taken ∈ notesOf handle log) :
    (∃ session ∈ c.sessions, session.handle = handle ∧
      (session.cancelled = true → .cancel taken.id ∈ log) ∧
      Told ⟨executor, policy.defaults⟩ policy taken c.world session session.phase
        (notesOf handle log)) ∨
    ∃ e ∈ c.ends, e.handle = handle ∧ ∃ before record,
      notesOf handle log = before ++ [.answered e.response record] ∧
      Closed ⟨executor, policy.defaults⟩ policy taken (.cancel taken.id ∈ log) e.response before := by
  have agrees := chronicle.agrees
  by_cases known : handle ∈ c.sessions.map Session.handle
  · obtain ⟨session, member, rfl⟩ := List.mem_map.1 known
    obtain ⟨dead, other, id, request, told⟩ := agrees.sessions session member
    cases told.eq_of_taken accepted
    exact .inl ⟨session, member, rfl, id ▸ dead, told⟩
  · by_cases ended : handle ∈ c.ends.map End.handle
    · obtain ⟨e, member, rfl⟩ := List.mem_map.1 ended
      have answered := agrees.ends e member
      generalize noted : notesOf e.handle log = notes at accepted answered
      cases answered with
      | refused => cases accepted
      | answered own closed =>
        have accepted := (List.mem_append.1 accepted).resolve_right (by simp)
        cases closed.eq_of_taken accepted
        exact .inr ⟨e, member, rfl, _, _, rfl, closed⟩
    · rw [agrees.unknown handle known ended] at accepted
      cases accepted

/-- A request that nobody cancels is run until a run completes, fails for good, or may not be
followed by another. Every run begins with nothing but the parameters, and as soon as the pause
after the one before it is over. All but the last have failed with a fault that may go away, and
there are no more of them than there may be retries. The answer to a completed request shows what
is left of the last run. All this is read off chronicles, and these are kept of all that is done
with a coordinator. -/
theorem runs_uncancelled (policy : Policy) (executor : Executor) :
    policy.Paces ∧ Recording policy executor ∧
    ∀ c log handle taken root, Chronicle policy executor c log →
      .taken taken ∈ notesOf handle log → taken.request.mode = .execute →
      Step.parse taken.request.steps = .ok root →
      (Checker.validate ⟨policy.limits, policy.catalog⟩ root).isValid = true →
      executor.Spares taken.id → .cancel taken.id ∉ log →
      ∃ plan failed rest, Planned policy taken.request plan ∧ plan.root = root ∧
        notesOf handle log = .taken taken :: (retold policy failed ++ rest) ∧
        Tried ⟨executor, policy.defaults⟩ policy taken plan failed ∧
        c.Continues ⟨executor, policy.defaults⟩ policy handle taken plan failed rest := by
  refine ⟨policy.paces, recording policy executor, ?_⟩
  intro c log handle taken root chronicle accepted mode parsed valid spares live
  obtain ⟨plan₀, planned₀⟩ := exists_planned mode parsed valid
  rcases chronicle.cases_of_taken accepted with
    ⟨session, member, same, dead, told⟩ | ⟨e, member, same, before, record, noted, closed⟩
  · have alive : session.cancelled = false := eq_false_of_ne_true fun cancelled =>
      live (dead cancelled)
    generalize notesOf handle log = notes at told
    generalize phase : session.phase = now at told
    cases told with
    | waits =>
      exact ⟨plan₀, [], [], planned₀, planned₀.root_eq parsed, rfl, .nil,
        .waits member same (.inl phase) rfl⟩
    | enters =>
      exact ⟨plan₀, [], [], planned₀, planned₀.root_eq parsed, rfl, .nil,
        .waits member same (.inr phase) rfl⟩
    | @runs plan activity bound failed start planned tried retries went =>
      obtain ⟨begins, s, current, tickets, went⟩ := went alive
      exact ⟨plan, failed, _, planned, planned.root_eq parsed, rfl, tried,
        .runs member same begins phase current went⟩
    | @rests plan ticket due failed run planned tried retries long past ahead =>
      obtain ⟨notes, p, rung, tells⟩ := ring_of_pausing chronicle.sound member phase alive
      refine ⟨plan, failed ++ [run], [], planned, planned.root_eq parsed, by rw [List.append_nil],
        tried, .rests member same List.getLast?_concat phase ?_ ⟨_, notes, p, same ▸ rung, tells⟩⟩
      rw [List.length_append, List.length_singleton, Nat.add_sub_cancel, World.afterPause,
        if_neg long]
      exact past
  · cases closed with
    | unrun reason =>
      exact absurd planned₀ ((reason.resolve_left live) plan₀)
    | rested planned tried reason => exact absurd reason live
    | @ran plan failed final planned tried went retries closes =>
      obtain ⟨begins, went⟩ := went.resolve_left live
      have noted : notesOf handle log = .taken taken ::
          (retold policy failed ++ (final.notes ++ [.answered e.response record])) := by
        rw [noted, List.cons_append, List.append_assoc]
      refine ⟨plan, failed, _, planned, planned.root_eq parsed, noted, tried, ?_⟩
      cases closes with
      | completes outcome good status shown =>
        refine .completes member same begins went outcome good status ?_ record
        rw [shown, went.results (congrArg Run.Stage.ended outcome)]
      | fails outcome plain last status shown =>
        refine .fails member same begins went outcome plain (fun retryable => ?_) status record
        exact Nat.le_antisymm tried.room (last retryable)
      | stops reason cancelled =>
        exact absurd (begins.uncancelled planned spares went) (reason.resolve_left live)

/-- Answers nothing but that something is wrong. -/
def broken : Executor := fun _ _ => ⟨0, [], .error "down", []⟩

/-- The session of the request when it is let through the gate. -/
def entered : Session := newcomer (make .standard broken) 0 "run" errand .admitted

/-- The request has been let through the gate. -/
def through : Coordinator :=
  { (make .standard broken).received with sessions := [entered], free := 9 }

theorem chronicle_through : Chronicle .standard broken through [.of 0 (.taken entered)] := by
  have received : Chronicle .standard broken (make .standard broken).received [] :=
    (chronicle_make .standard broken numberedId).does (.receive _)
  have other (session : Session) (member : session ∈ (make .standard broken).received.sessions) :
      session.id ≠ "run" := absurd member List.not_mem_nil
  exact received.does (.enter List.not_mem_nil (by decide) errand (by decide) other (by decide))

/-- The first run fails, and its session rests. -/
theorem proceed_entered : ∃ world next plan ticket due,
    entered.proceed ⟨broken, .standard⟩ .standard .empty = (world, .stays next) ∧
      world.requests = [] ∧ next.handle = 0 ∧ next.id = "run" ∧ next.retries = 1 ∧
      next.phase = .pausing plan ticket due := by
  have mode : entered.request.mode = .execute := rfl
  have parsed : Step.parse entered.request.steps = .ok fetch := parse_errand
  unfold Session.proceed
  rw [if_neg (by decide)]
  simp only [parsed, isValid_fetch, mode]
  rw [if_neg (by decide), if_neg (by decide)]
  exact ⟨_, _, _, _, _, rfl, rfl, rfl, rfl, rfl, rfl⟩

/-- The request rests after its first run has failed, and nobody has asked to cancel anything. -/
theorem exists_resting : ∃ c log session plan ticket due, Chronicle .standard broken c log ∧
    .taken entered ∈ notesOf 0 log ∧ (∀ id, .cancel id ∉ log) ∧ session ∈ c.sessions ∧
    session.handle = 0 ∧ session.id = "run" ∧ session.retries = 1 ∧
    session.phase = .pausing plan ticket due := by
  obtain ⟨world, next, plan, ticket, due, gone, requests, handle, id, retries, phase⟩ :=
    proceed_entered
  obtain ⟨notes, tells⟩ := exists_tells_proceed through entered rfl
  have steps : through.Steps entered false (world, .stays next) := gone ▸ .begin rfl false
  have tells : through.Tells entered notes (world, .stays next) := gone ▸ tells
  obtain ⟨events, speaks⟩ := steps.speaks trivial
  refine ⟨_, _, next, plan, ticket, due,
    chronicle_through.does (.goOn List.mem_cons_self steps speaks fun _ => tells), ?_,
    fun id member => ?_, ?_, handle, id, retries, phase⟩
  · rw [notesOf_append]
    exact List.mem_append_left _ List.mem_cons_self
  · simp [remarks, requests] at member
  · have quiet : (Coordinator.replace { through with world := world } next).world.requests = [] :=
      requests
    rw [settle, sessions_grantRequests quiet]
    exact List.mem_map.2 ⟨entered, List.mem_cons_self, if_pos handle.symm⟩

/-- The request that rests is run by the law. -/
theorem runs_uncancelled_resting : ∃ c log, Chronicle .standard broken c log ∧
    .taken entered ∈ notesOf 0 log ∧ entered.request.mode = .execute ∧
    Step.parse entered.request.steps = .ok fetch ∧
    (Checker.validate ⟨Policy.standard.limits, Policy.standard.catalog⟩ fetch).isValid = true ∧
    broken.Spares entered.id ∧ .cancel entered.id ∉ log ∧
    Policy.standard.Paces ∧ ∃ plan failed rest, Planned .standard entered.request plan ∧
      plan.root = fetch ∧ notesOf 0 log = .taken entered :: (retold .standard failed ++ rest) ∧
      Tried ⟨broken, Policy.standard.defaults⟩ .standard entered plan failed ∧
      c.Continues ⟨broken, Policy.standard.defaults⟩ .standard 0 entered plan failed rest := by
  obtain ⟨c, log, session, -, -, -, chronicle, accepted, quiet, -⟩ := exists_resting
  have spares : broken.Spares entered.id := fun _ _ _ => ⟨rfl, rfl⟩
  obtain ⟨paces, -, runs⟩ := runs_uncancelled .standard broken
  exact ⟨c, log, chronicle, accepted, rfl, parse_errand, isValid_fetch, spares, quiet _, paces,
    runs c log 0 entered fetch chronicle accepted rfl parse_errand isValid_fetch spares (quiet _)⟩

/-- The session that rests has been run once. -/
theorem length_starts_resting {c : Coordinator} {log : List Remark} {session : Session}
    (chronicle : Chronicle .standard broken c log) (accepted : .taken entered ∈ notesOf 0 log)
    (member : session ∈ c.sessions) (handle : session.handle = 0) (retries : session.retries = 1)
    {plan : Plan} {ticket due : Nat} (phase : session.phase = .pausing plan ticket due) :
    (startsOf (notesOf 0 log)).length = 1 := by
  rcases chronicle.cases_of_taken accepted with ⟨other, inside, own, -, told⟩ | ⟨e, ended, own, -⟩
  · cases chronicle.sound.eq_of_handle inside member (own.trans handle.symm)
    rw [phase] at told
    generalize notesOf 0 log = notes at told
    cases told with
    | rests planned tried counted =>
      rw [retries] at counted
      simp [← counted]
  · exact absurd (handle.trans own.symm) (chronicle.sound.handle_ne_end member ended)

/-- The request is cancelled in the pause after its first run, and ends with one retry although it
was run only once. -/
theorem exists_cancelled_resting : ∃ c log, Chronicle .standard broken c log ∧ ∃ e ∈ c.ends,
    e.response.retries = 1 ∧ (startsOf (notesOf e.handle log)).length = 1 := by
  obtain ⟨c, log, session, plan, ticket, due, chronicle, accepted, -, member, handle, id, retries,
    phase⟩ := exists_resting
  have once := length_starts_resting chronicle accepted member handle retries phase
  have found : c.find? "run" = some session := id ▸ chronicle.sound.find?_eq member
  let later : Coordinator := (c.cancel "run").2
  let dead : Session := session.cancel c.world.now
  have inside : dead ∈ later.sessions := by
    simp only [later, Coordinator.cancel, found]
    split <;> exact List.mem_map.2 ⟨session, member, if_pos rfl⟩
  have rests : dead.phase = .pausing plan ticket due := phase
  have stopped : dead.rested later.engine later.policy plan false later.world = (later.world,
      .ends (dead.cancelledResponse later.world (some (.obj dead.results)))) := if_pos rfl
  have steps : later.Steps dead false _ := .rest rests false
  rw [stopped] at steps
  have cancelled : Chronicle .standard broken later (log ++ [.cancel "run"]) :=
    chronicle.does (.cancel c "run")
  obtain ⟨events, speaks⟩ := steps.speaks (cancelled.sound.sessions dead inside)
  refine ⟨_, _, cancelled.does (.conclude inside steps speaks fun _ => .stops rests rfl _), _,
    List.mem_append_right _ List.mem_cons_self, retries, ?_⟩
  have own : dead.handle = 0 := handle
  simp only [remarks, notesOf_append, notesOf_cancel, notesOf_map_cancel, notesOf_map_of, Move.notes,
    startsOf_append, startsOf_answered, startsOf_nil, List.append_nil, List.nil_append, own]
  exact once

/-- The retries of an answer, and of the record that is kept of it, are the runs after the first
one; but if the request was cancelled in the pause after a run, as many as there were runs. All this
is read off chronicles, and these are kept of all that is done with a coordinator. -/
theorem retries_of_answer (policy : Policy) (executor : Executor) : Recording policy executor ∧
    ∀ c log e, Chronicle policy executor c log → e ∈ c.ends →
      startsOf (notesOf e.handle log) ≠ [] →
      ∃ before kept, notesOf e.handle log = before ++ [.answered e.response (some kept)] ∧
        kept.executionId = e.response.executionId ∧ kept.retries = e.response.retries ∧
        (e.response.retries + 1 = (startsOf (notesOf e.handle log)).length ∧
            (before.getLast?.any Note.isPause) = false ∨
          e.response.retries = (startsOf (notesOf e.handle log)).length ∧
            (before.getLast?.any Note.isPause) = true ∧ e.response.IsCancelled) := by
  refine ⟨recording policy executor, fun c log e chronicle member ran => ?_⟩
  have answered := chronicle.agrees.ends e member
  generalize notesOf e.handle log = notes at answered ran
  cases answered with
  | refused => exact absurd rfl ran
  | @answered taken before own closed workflowId time =>
    refine ⟨before, _, rfl, rfl, rfl, ?_⟩
    cases closed with
    | unrun => exact absurd rfl ran
    | @rested plan before run planned tried reason cancelled retries =>
      have last : (.taken taken :: retold policy (before ++ [run])).getLast? =
          some (.paused (policy.pause before.length)) := by
        rw [retold_append_singleton, ← List.append_assoc, ← List.cons_append, List.getLast?_concat]
      exact .inr ⟨by simp [retries], last ▸ rfl, cancelled⟩
    | @ran plan before final planned tried went retries closes =>
      have last : (.taken taken :: (retold policy before ++ final.notes)).getLast? =
          some (.returned final.last final.outcome) := by
        rw [Ran.notes, List.append_cons, ← List.cons_append, List.getLast?_concat]
      exact .inl ⟨by simp [retries], last ▸ rfl⟩

theorem retries_of_answer_resting : ∃ c log, Chronicle .standard broken c log ∧ ∃ e ∈ c.ends,
    startsOf (notesOf e.handle log) ≠ [] ∧
    ∃ before kept, notesOf e.handle log = before ++ [.answered e.response (some kept)] ∧
      kept.executionId = e.response.executionId ∧ kept.retries = e.response.retries ∧
      (e.response.retries + 1 = (startsOf (notesOf e.handle log)).length ∧
          (before.getLast?.any Note.isPause) = false ∨
        e.response.retries = (startsOf (notesOf e.handle log)).length ∧
          (before.getLast?.any Note.isPause) = true ∧ e.response.IsCancelled) := by
  obtain ⟨c, log, chronicle, e, member, -, once⟩ := exists_cancelled_resting
  have ran : startsOf (notesOf e.handle log) ≠ [] := List.ne_nil_of_length_eq_add_one once
  exact ⟨c, log, chronicle, e, member, ran,
    (retries_of_answer .standard broken).2 c log e chronicle member ran⟩

/-- An answer may give more retries than there were. -/
theorem not_retries_add_one_eq : ¬∀ policy executor c log, Chronicle policy executor c log →
    ∀ e ∈ c.ends, startsOf (notesOf e.handle log) ≠ [] →
      e.response.retries + 1 = (startsOf (notesOf e.handle log)).length := by
  intro all
  obtain ⟨c, log, chronicle, e, member, retries, once⟩ := exists_cancelled_resting
  have counted := all .standard broken c log chronicle e member
    (List.ne_nil_of_length_eq_add_one once)
  omega

end Coordinator

end Stepwise
