import Stepwise.Proofs.Coordinator.Origins
import Stepwise.Proofs.Coordinator.Telling

/-!
# Modes

A request to check some steps, to plan them or to execute them is judged in the same way: if the
steps cannot be read it fails with what is wrong with them, and otherwise the answer brings what
the checks have found. So the answers of the three modes agree (`modes_agree`). A session that is
not to be executed does nothing to the world but end. Where a place is left at the gate, a request
is let through at once (`Chronicle.exists_entry`): it begins then, or has its answer.
-/

namespace Stepwise

namespace Checker

variable {checker : Checker} {steps : List Json}

/-- The steps can be read and pass the checks. -/
def Passes (checker : Checker) (steps : List Json) : Prop :=
  ∃ root, Step.parse steps = .ok root ∧ (checker.validate root).isValid = true

theorem passes_iff {root : Node} (parsed : Step.parse steps = .ok root) :
    checker.Passes steps ↔ (checker.validate root).isValid = true := by
  constructor
  · rintro ⟨other, same, valid⟩
    rw [parsed] at same
    cases same
    exact valid
  · intro valid
    exact ⟨root, parsed, valid⟩

theorem not_passes {faults : Faults} (unread : Step.parse steps = .error faults) :
    ¬checker.Passes steps := by
  rintro ⟨root, parsed, -⟩
  rw [unread] at parsed
  cases parsed

end Checker

/-- A request is planned if it is to be executed and its steps pass the checks. -/
theorem exists_planned_iff {policy : Policy} {request : Request} :
    (∃ plan, Planned policy request plan) ↔ request.mode = .execute ∧
      Checker.Passes ⟨policy.limits, policy.catalog⟩ request.steps := by
  constructor
  · rintro ⟨plan, planned⟩
    exact ⟨planned.mode, plan.root, planned.parsed, planned.report ▸ planned.valid⟩
  · rintro ⟨mode, root, parsed, valid⟩
    exact exists_planned mode parsed valid

/-- A request has failed with a fault before anything was checked. -/
structure Response.Refuses (response : Response) (fault : Fault) : Prop where
  success : response.success = false
  error : response.error = some fault.message
  errorCode : response.errorCode = some fault.code
  errorDetails : response.errorDetails = Response.detailsOf fault
  validation : response.validation = none

/-- How a request is answered that was run or not: as one that was cancelled, or with what is wrong
with its steps, or with what the checks have found. One that passes them is run if it is to be
executed, and succeeds if it is not. -/
inductive Replies (policy : Policy) (request : Request) (dead ran : Prop) (response : Response) :
    Prop
  | stopped (status : response.status = .cancelled)
      (reason : dead ∨ ∃ plan, Planned policy request plan)
  | refused {faults : Faults} (unread : Step.parse request.steps = .error faults)
      (refuses : response.Refuses faults.collapse) (status : response.status ≠ .cancelled)
      (unrun : ¬ran)
  | checked {root : Node} (parsed : Step.parse request.steps = .ok root)
      (validation : response.validation =
        some (Checker.validate ⟨policy.limits, policy.catalog⟩ root))
      (status : response.status ≠ .cancelled)
      (judged : request.mode ≠ .execute → (response.success = true ↔
        (Checker.validate ⟨policy.limits, policy.catalog⟩ root).isValid = true))
      (runs : ran ↔ request.mode = .execute ∧
        (Checker.validate ⟨policy.limits, policy.catalog⟩ root).isValid = true)

section

variable {policy : Policy} {request : Request} {dead ran : Prop} {response : Response}

/-- The reason for a cancellation is one for another. -/
theorem Replies.mono (h : Replies policy request dead ran response) {still : Prop}
    (stays : dead → still) : Replies policy request still ran response := by
  cases h with
  | stopped status reason => exact .stopped status (reason.imp_left stays)
  | refused unread refuses status unrun => exact .refused unread refuses status unrun
  | checked parsed validation status judged runs =>
    exact .checked parsed validation status judged runs

/-- A request that is not run, as it is not to be executed or does not pass the checks, succeeds if
it passes them. -/
theorem Replies.of_unrun {root : Node} (parsed : Step.parse request.steps = .ok root)
    {report : Report} (found : Checker.validate ⟨policy.limits, policy.catalog⟩ root = report)
    (validation : response.validation = some report) (status : response.status ≠ .cancelled)
    (judged : response.success = report.isValid)
    (unrun : request.mode = .execute → report.isValid = false) :
    Replies policy request dead False response := by
  subst found
  refine .checked parsed validation status (fun _ => by rw [judged]) (iff_of_false not_false ?_)
  rintro ⟨mode, valid⟩
  rw [unrun mode] at valid
  cases valid

/-- A request that was run brings what the checks have found. -/
theorem Planned.checked {plan : Plan} (planned : Planned policy request plan) (went : ran)
    (validation : response.validation = some plan.report)
    (status : response.status ≠ .cancelled) :
    Replies policy request dead ran response := by
  have valid := planned.valid
  rw [planned.report] at validation valid
  exact .checked planned.parsed validation status (fun other => absurd planned.mode other)
    (iff_of_true went ⟨planned.mode, valid⟩)

end

namespace Session

variable {engine : Engine} {policy : Policy} {plan : Plan} {session : Session} {world : World}
  {notes : List Note} {p : World × Move} {response : Response} {dead ran : Prop}

/-- What follows a step of a run ends in an answer with what the checks have found, or in that of a
cancelled request. -/
theorem After.replies {q : RunState × Run.Stage}
    (after : After engine policy plan session q notes p) {request : Request}
    (planned : Planned policy request plan) (went : ran) (ends : p.2 = .ends response) :
    Replies policy request dead ran response := by
  induction after with
  | waits | pauses => cases ends
  | completes =>
    obtain rfl := Move.ends.inj ends
    exact planned.checked went rfl nofun
  | stops =>
    obtain rfl := Move.ends.inj ends
    exact .stopped rfl (.inr ⟨plan, planned⟩)
  | fails plain =>
    obtain rfl := Move.ends.inj ends
    refine planned.checked went rfl fun (cancelled : Status.ofFault _ = .cancelled) => ?_
    rcases status_ofFault plain with other | other <;> rw [other] at cancelled <;> cases cancelled
  | repeats _ _ _ _ _ ih => exact ih ends

/-- A session that is let through the gate is answered at once and leaves the world as it is, or it
is to be executed and begins. -/
theorem proceed_cases (engine : Engine) (policy : Policy) (world : World) (session : Session) :
    (∃ response, session.proceed engine policy world = (world, .ends response) ∧
      Replies policy session.request (session.cancelled = true) False response) ∨
    session.cancelled = false ∧ ∃ plan, Planned policy session.request plan := by
  unfold proceed
  split
  · next cancelled => exact .inl ⟨_, rfl, .stopped rfl (.inl cancelled)⟩
  next live =>
  dsimp only
  split
  · next faults unread =>
    exact .inl ⟨_, rfl, .refused unread ⟨rfl, rfl, rfl, rfl, rfl⟩ nofun not_false⟩
  next root parsed =>
  generalize report : Checker.validate ⟨policy.limits, policy.catalog⟩ root = found
  split
  · next mode =>
    have unrun (whole : session.request.mode = .execute) : found.isValid = false := by
      rw [mode] at whole
      cases whole
    unfold checkResponse
    split
    · next valid => exact .inl ⟨_, rfl, .of_unrun parsed report rfl nofun valid.symm unrun⟩
    · next invalid =>
      have judged := (eq_false_of_ne_true invalid).symm
      exact .inl ⟨_, rfl, .of_unrun parsed report rfl nofun judged unrun⟩
  · next checks =>
    split
    · next invalid =>
      rw [Bool.not_eq_true'] at invalid
      exact .inl ⟨_, rfl, .of_unrun parsed report rfl nofun invalid.symm fun _ => invalid⟩
    · next valid =>
      rw [Bool.not_eq_true, Bool.not_eq_false'] at valid
      split
      · next dry =>
        have unrun (whole : session.request.mode = .execute) : found.isValid = false := by
          rw [dry] at whole
          cases whole
        exact .inl ⟨_, rfl, .of_unrun parsed report rfl nofun valid.symm unrun⟩
      · next plans =>
        have mode : session.request.mode = .execute := by
          cases mode : session.request.mode with
          | execute => rfl
          | validateOnly => exact absurd mode checks
          | dryRun => exact absurd mode plans
        exact .inr ⟨eq_false_of_ne_true live, exists_planned mode parsed (report ▸ valid)⟩

end Session

namespace Coordinator

variable {policy : Policy} {executor : Executor} {c : Coordinator} {log : List Remark}
  {taken session : Session} {deaf : Bool} {p : World × Move} {response : Response}

theorem Steps.eq_proceed (steps : c.Steps session deaf p) (phase : session.phase = .admitted) :
    p = session.proceed c.engine c.policy c.world := by
  cases steps with
  | begin => rfl
  | goOn other | rest other =>
    rw [phase] at other
    cases other

/-- A session that is not to be executed is let through the gate once, and then it ends and leaves
the world as it is. -/
theorem Steps.checks {engine : Engine} {notes : List Note} (steps : c.Steps session deaf p)
    (told : Told engine policy taken c.world session session.phase notes)
    (request : taken.request = session.request) (mode : session.request.mode ≠ .execute) :
    p.1 = c.world ∧ ∃ response, p.2 = .ends response := by
  rw [← request] at mode
  cases steps with
  | begin =>
    rcases session.proceed_cases c.engine c.policy c.world with
      ⟨response, same, -⟩ | ⟨-, plan, planned⟩
    · rw [same]
      exact ⟨rfl, response, rfl⟩
    · rw [← request] at planned
      exact absurd planned.mode mode
  | goOn phase =>
    rw [phase] at told
    cases told with
    | runs planned => exact absurd planned.mode mode
  | rest phase =>
    rw [phase] at told
    cases told with
    | rests planned => exact absurd planned.mode mode

theorem isWorkflowEvent_endEvent (response : Response) :
    (endEvent response).isWorkflowEvent = true := by
  unfold endEvent
  split <;> rfl

/-- A session that is not to be executed is done after one step. No call has been made then, and
nothing has been told but its end. -/
theorem Chronicle.checks (chronicle : Chronicle policy executor c log)
    (member : session ∈ c.sessions) (mode : session.request.mode ≠ .execute)
    (steps : c.Steps session deaf p) :
    (∃ response, p.2 = .ends response) ∧ (c.settle session p).world.calls = c.world.calls ∧
      ∃ event, event.isWorkflowEvent = true ∧
        c.world.Tells (c.settle session p).world [event] := by
  have sound := chronicle.sound
  obtain ⟨-, taken, -, request, told⟩ := chronicle.agrees.sessions session member
  obtain ⟨world, response, ends⟩ := steps.checks told request mode
  have goes := steps.goes_deaf (sound.sessions session member)
  obtain ⟨later, move⟩ := p
  obtain rfl : later = c.world := world
  obtain rfl : move = .ends response := ends
  have parted := parted_ends sound member goes
  refine ⟨⟨response, rfl⟩, ?_, endEvent response, isWorkflowEvent_endEvent response, ?_⟩
  · simp [settle, finish, addEnd, World.emit]
  · rw [World.Tells, parted.log]
    exact World.tells_emit c.world _

/-- What a session tells in the step in which it ends is an answer to what was asked. -/
theorem Tells.replies {engine : Engine} {before notes : List Note} (tells : c.Tells session notes p)
    (steps : c.Steps session deaf p)
    (told : Told engine c.policy taken c.world session session.phase before)
    (request : taken.request = session.request) (ends : p.2 = .ends response) :
    Replies c.policy taken.request (session.cancelled = true) (startsOf (before ++ notes) ≠ [])
      response := by
  cases tells with
  | declines phase reason =>
    have unrun : (startsOf (before ++ []) ≠ []) = False := by
      rw [phase] at told
      cases told with
      | enters => exact eq_false (not_not_intro rfl)
    rw [request, unrun]
    rcases session.proceed_cases c.engine c.policy c.world with
      ⟨other, same, replies⟩ | ⟨live, plan, planned⟩
    · rw [steps.eq_proceed phase, same] at ends
      cases ends
      exact replies
    · rw [live] at reason
      exact absurd planned (reason.resolve_left nofun plan)
  | begins phase live planned after =>
    rw [request]
    exact after.replies planned (by simp) ends
  | goesOn phase current idle after =>
    rw [phase] at told
    cases told with
    | runs planned => exact after.replies planned (by simp) ends
  | stops phase struck => exact .stopped (Move.ends.inj ends ▸ rfl) (.inl struck)
  | resumes phase past after =>
    rw [phase] at told
    cases told with
    | rests planned => exact after.replies planned (by simp) ends

/-- The answer to a request that was taken is one by its mode. -/
theorem Chronicle.replies (chronicle : Chronicle policy executor c log) {e : End}
    (member : e ∈ c.ends) (accepted : .taken taken ∈ notesOf e.handle log) :
    Replies policy taken.request (.cancel taken.id ∈ log) (startsOf (notesOf e.handle log) ≠ [])
      e.response := by
  obtain ⟨earlier, session, world, origin⟩ := chronicle.exists_step member accepted
  obtain ⟨rfl, dead, request, ⟨deaf, steps⟩, before, notes, record, noted, told, tells⟩ := origin
  have replies := (tells.replies steps told request rfl).mono dead
  have same : startsOf (notesOf e.handle log) = startsOf (before ++ notes) := by
    rw [noted]
    simp
  rwa [same]

/-- A request that nobody cancels is not answered as a cancelled one. -/
theorem Chronicle.status_ne_cancelled (chronicle : Chronicle policy executor c log) {e : End}
    (member : e ∈ c.ends) (accepted : .taken taken ∈ notesOf e.handle log)
    (live : .cancel taken.id ∉ log)
    (spares : taken.request.mode = .execute → executor.Spares taken.id) :
    e.response.status ≠ .cancelled := by
  intro cancelled
  cases chronicle.replies member accepted with
  | refused _ _ status | checked _ _ status => exact status cancelled
  | stopped _ reason =>
    obtain ⟨plan, planned⟩ := reason.resolve_left live
    rcases chronicle.cases_of_taken accepted with
      ⟨session, inside, same, -⟩ | ⟨other, inside, same, before, record, noted, closed⟩
    · exact chronicle.sound.handle_ne_end inside member same
    · have own := chronicle.sound.end?_eq inside
      rw [same, chronicle.sound.end?_eq member] at own
      obtain rfl := Option.some.inj own
      cases closed with
      | unrun reason => exact reason.resolve_left live plan planned
      | rested _ _ struck => exact live struck
      | ran planned tried went retries closes =>
        cases closes with
        | completes _ _ status =>
          rw [status] at cancelled
          cases cancelled
        | fails _ plain _ status =>
          rw [status] at cancelled
          rcases Session.status_ofFault plain with other | other <;> rw [other] at cancelled <;>
            cases cancelled
        | stops reason =>
          obtain ⟨begins, went⟩ := went.resolve_left live
          have plain := begins.uncancelled planned (spares planned.mode) went
          exact reason.resolve_left live plain

/-! ## Requests with a place at the gate -/

/-- A session that is let through the gate is run if it is to be executed and its steps pass. -/
theorem Tells.starts_ne_nil_iff {notes : List Note} (tells : c.Tells session notes p)
    (phase : session.phase = .admitted) (live : session.cancelled = false) :
    startsOf notes ≠ [] ↔ session.request.mode = .execute ∧
      Checker.Passes ⟨c.policy.limits, c.policy.catalog⟩ session.request.steps := by
  rw [← exists_planned_iff]
  cases tells with
  | declines _ reason =>
    have unplanned := reason.resolve_left (ne_true_of_eq_false live)
    refine iff_of_false (not_not_intro rfl) ?_
    rintro ⟨plan, planned⟩
    exact unplanned plan planned
  | begins _ _ planned => exact iff_of_true (by simp) ⟨_, planned⟩
  | goesOn other | stops other | resumes other =>
    rw [phase] at other
    cases other

/-- A session that nobody has cancelled and that is not to be executed ends as it is let through,
and not as one that was cancelled. -/
theorem exists_ends_proceed (session : Session) (live : session.cancelled = false)
    (mode : session.request.mode ≠ .execute) :
    ∃ response, session.proceed c.engine c.policy c.world = (c.world, .ends response) ∧
      response.status ≠ .cancelled := by
  rcases session.proceed_cases c.engine c.policy c.world with
    ⟨response, same, replies⟩ | ⟨-, plan, planned⟩
  · refine ⟨response, same, ?_⟩
    cases replies with
    | stopped _ reason =>
      obtain ⟨plan, planned⟩ := reason.resolve_left (ne_true_of_eq_false live)
      exact absurd planned.mode mode
    | refused _ _ status => exact status
    | checked _ _ status => exact status
  · exact absurd planned.mode mode

theorem await_of_end {handle : Nat} {e : End} (ended : c.end? handle = some e) (steps : Nat) :
    await handle steps c = c := by
  cases steps with
  | zero => rfl
  | succ steps =>
    rw [await, ended]
    rfl

theorem call_of_end {request : Request} {e : End}
    (ended : (c.received.accept c.handles request).end? c.handles = some e) (steps : Nat) :
    (call steps c request).1 = some e.response := by
  have answer : (call steps c request).1 =
      ((await c.handles steps (c.received.accept c.handles request)).end? c.handles).map
        End.response := rfl
  rw [answer, await_of_end ended, ended, Option.map_some]

@[simp] theorem startsOf_moveNotes (repository : Repository) (move : Move) :
    startsOf (move.notes repository) = [] := by
  cases move <;> rfl

/-- The session of a request that is let through at once. -/
def arrived (c : Coordinator) (handle : Nat) (request : Request) : Session :=
  c.newcomer handle (c.nameFor handle request) request .admitted

/-- A coordinator that has let a request through. -/
def welcoming (c : Coordinator) (handle : Nat) (request : Request) : Coordinator :=
  { c with sessions := c.sessions ++ [c.arrived handle request], free := c.free - 1 }

section

variable {handle : Nat} {request : Request}

theorem arrived_mem_welcoming :
    c.arrived handle request ∈ (c.welcoming handle request).sessions :=
  List.mem_append_right _ List.mem_cons_self

theorem accept_of_room (gate : c.policy.maxConcurrent ≠ 0) (room : c.free ≠ 0)
    (unknown : ¬(c.find? (c.nameFor handle request)).isSome = true) :
    c.accept handle request = (c.welcoming handle request).proceed (c.arrived handle request) := by
  rw [accept_eq, if_neg gate, if_neg unknown, if_neg room]
  rfl

/-- A request has been taken under its name and let through: it is run if it is to be executed and
its steps pass, and it has its answer if it is not to be executed. -/
structure Entry (policy : Policy) (executor : Executor) (c later : Coordinator) (handle : Nat)
    (request : Request) (log : List Remark) (taken : Session) : Prop where
  chronicle : Chronicle policy executor later log
  asks : taken.request = request
  named : taken.id = c.nameFor handle request
  accepted : .taken taken ∈ notesOf handle log
  runs : startsOf (notesOf handle log) ≠ [] ↔ request.mode = .execute ∧
    Checker.Passes ⟨policy.limits, policy.catalog⟩ request.steps
  answered : request.mode ≠ .execute → ∃ e, later.end? handle = some e ∧
    e.response.status ≠ .cancelled

/-- What a session has ended with is found by its handle. -/
theorem Sound.end?_settle (sound : c.Sound) (member : session ∈ c.sessions) {world : World}
    (steps : c.Steps session deaf (world, .ends response)) :
    (c.settle session (world, .ends response)).end? session.handle =
      some ⟨session.handle, world.now, response⟩ := by
  have goes := steps.goes_deaf (sound.sessions session member)
  have ends := (parted_ends sound member goes).ends
  have inside : ⟨session.handle, world.now, response⟩ ∈
      (c.settle session (world, .ends response)).ends := by
    rw [ends]
    exact List.mem_append_right _ List.mem_cons_self
  exact (goes_settle sound member goes).sound.end?_eq inside

/-- Where a place is left at the gate, a request whose id no session has is let through at once. -/
theorem Chronicle.exists_entry (chronicle : Chronicle policy executor c log)
    (gate : policy.maxConcurrent ≠ 0) (room : c.free ≠ 0) (fresh : handle ∉ c.numbers)
    (given : handle < c.handles) (unknown : ¬(c.find? (c.nameFor handle request)).isSome = true) :
    ∃ more, Entry policy executor c (c.accept handle request) handle request (log ++ more)
      (c.arrived handle request) := by
  have silent := chronicle.silent fresh
  obtain rfl := chronicle.agrees.follows
  have entered : Chronicle c.policy executor (c.welcoming handle request)
      (log ++ [.of handle (.taken (c.arrived handle request))]) :=
    chronicle.does (.enter fresh given request gate (ne_of_find?_none unknown) room)
  have taken : notesOf handle [.of handle (.taken (c.arrived handle request))] =
      [.taken (c.arrived handle request)] := notesOf_map_of handle [.taken _]
  obtain ⟨notes, tells⟩ := exists_tells_proceed (c.welcoming handle request)
    (c.arrived handle request) rfl
  obtain ⟨more, stepped, told⟩ := entered.step arrived_mem_welcoming (.begin rfl false) tells
  rw [List.append_assoc] at stepped
  rw [accept_of_room gate room unknown]
  refine ⟨_, stepped, rfl, rfl, ?accepted, ?runs, fun mode => ?answered⟩
  case accepted =>
    rw [notesOf_append, notesOf_append, taken]
    exact List.mem_append_right _ List.mem_cons_self
  case runs =>
    have runs : startsOf notes ≠ [] ↔ request.mode = .execute ∧
        Checker.Passes ⟨c.policy.limits, c.policy.catalog⟩ request.steps :=
      tells.starts_ne_nil_iff rfl rfl
    have own : notesOf handle more = notes ++ _ := told
    rw [notesOf_append, silent, notesOf_append, taken, own]
    simpa using runs
  case answered =>
    obtain ⟨response, ends, status⟩ :=
      exists_ends_proceed (c := c.welcoming handle request) (c.arrived handle request) rfl mode
    have steps : (c.welcoming handle request).Steps (c.arrived handle request) false _ :=
      .begin rfl false
    rw [ends] at steps
    rw [Coordinator.proceed, ends]
    exact ⟨_, entered.sound.end?_settle arrived_mem_welcoming steps, status⟩

/-- Whoever calls with a request that is let through at once has what it has ended with. -/
theorem Chronicle.calls (chronicle : Chronicle policy executor c log)
    (gate : policy.maxConcurrent ≠ 0) (room : c.free ≠ 0)
    (unknown : ¬(c.find? (c.nameFor c.handles request)).isSome = true) :
    ∃ taken more, Entry policy executor c (c.received.accept c.handles request) c.handles request
      (log ++ more) taken ∧
    (request.mode ≠ .execute → ∀ steps, (call steps c request).1 =
      ((c.received.accept c.handles request).end? c.handles).map End.response) := by
  have received : Chronicle policy executor c.received log := by
    have received := chronicle.does (.receive c)
    rwa [List.append_nil] at received
  have fresh : c.handles ∉ c.received.numbers := handles_notMem chronicle.sound
  have given : c.handles < c.received.handles := Nat.lt_succ_self _
  obtain ⟨more, entry⟩ := received.exists_entry gate room fresh given unknown
  obtain ⟨noted, asks, named, accepted, runs, answered⟩ := entry
  refine ⟨_, more, ⟨noted, asks, named, accepted, runs, answered⟩, fun mode steps => ?_⟩
  obtain ⟨e, ended, -⟩ := answered mode
  rw [call_of_end ended, ended, Option.map_some]

end

end Coordinator

/-! ## The three modes -/

namespace Coordinator

/-- An answer to a request to do something with some steps that was taken, maybe among others, and
not cancelled. -/
structure Inquiry (checker : Checker) (steps : List Json) (mode : Mode) where
  policy : Policy
  executor : Executor
  coordinator : Coordinator
  log : List Remark
  taken : Session
  answer : End
  chronicle : Chronicle policy executor coordinator log
  rules : (⟨policy.limits, policy.catalog⟩ : Checker) = checker
  accepted : .taken taken ∈ notesOf answer.handle log
  asks : taken.request.steps = steps
  means : taken.request.mode = mode
  answered : answer ∈ coordinator.ends
  uncancelled : answer.response.status ≠ .cancelled

namespace Inquiry

variable {checker : Checker} {steps : List Json} {mode : Mode}
  (inquiry : Inquiry checker steps mode)

/-- The response that the inquiry is answered with. -/
def response : Response := inquiry.answer.response

/-- The states in which the runs of the request have begun. -/
def starts : List RunState := startsOf (notesOf inquiry.answer.handle inquiry.log)

/-- The steps cannot be read, and the answer says what is wrong with them; or it brings what the
checks have found. A request whose steps pass is run if it is to be executed, and otherwise it
succeeds. -/
theorem cases :
    (∃ faults, Step.parse steps = .error faults ∧ inquiry.response.Refuses faults.collapse ∧
      inquiry.starts = []) ∨
    ∃ root, Step.parse steps = .ok root ∧
      inquiry.response.validation = some (checker.validate root) ∧
      (mode ≠ .execute →
        (inquiry.response.success = true ↔ (checker.validate root).isValid = true)) ∧
      (inquiry.starts ≠ [] ↔ mode = .execute ∧ (checker.validate root).isValid = true) := by
  cases inquiry.chronicle.replies inquiry.answered inquiry.accepted with
  | stopped status => exact absurd status inquiry.uncancelled
  | refused unread refuses _ unrun =>
    rw [inquiry.asks] at unread
    exact .inl ⟨_, unread, refuses, not_not.1 unrun⟩
  | checked parsed validation _ judged runs =>
    rw [inquiry.asks] at parsed
    rw [inquiry.rules] at validation judged runs
    rw [inquiry.means] at judged runs
    exact .inr ⟨_, parsed, validation, judged, runs⟩

theorem refuses {faults : Faults} (unread : Step.parse steps = .error faults) :
    inquiry.response.Refuses faults.collapse := by
  rcases inquiry.cases with ⟨other, same, refuses, -⟩ | ⟨root, parsed, -⟩
  · rw [unread] at same
    cases same
    exact refuses
  · rw [unread] at parsed
    cases parsed

theorem validation_eq {root : Node} (parsed : Step.parse steps = .ok root) :
    inquiry.response.validation = some (checker.validate root) := by
  rcases inquiry.cases with ⟨faults, unread, -⟩ | ⟨other, same, validation, -⟩
  · rw [parsed] at unread
    cases unread
  · rw [parsed] at same
    cases same
    exact validation

/-- A request that is not to be executed succeeds if its steps pass. -/
theorem success_iff (mild : mode ≠ .execute) :
    inquiry.response.success = true ↔ checker.Passes steps := by
  rcases inquiry.cases with ⟨faults, unread, refuses, -⟩ | ⟨root, parsed, -, judged, -⟩
  · refine iff_of_false ?_ (Checker.not_passes unread)
    rw [refuses.success]
    decide
  · exact (judged mild).trans (Checker.passes_iff parsed).symm

/-- A request is run if it is to be executed and its steps pass. -/
theorem starts_ne_nil_iff : inquiry.starts ≠ [] ↔ mode = .execute ∧ checker.Passes steps := by
  rcases inquiry.cases with ⟨faults, unread, -, unrun⟩ | ⟨root, parsed, -, -, runs⟩
  · exact iff_of_false (not_not_intro unrun) fun passes => Checker.not_passes unread passes.2
  · rw [runs, Checker.passes_iff parsed]

end Inquiry

/-- A request to check some steps and one to plan them make no call and tell of no node; they
succeed exactly if one to execute them is run. All three answers tell what is wrong with steps that
cannot be read, and otherwise bring what the same checks have found. An answer is that of a
cancelled request only if somebody has cancelled it. Where a place is left at the gate, a request
whose id no session has is run at once if it is to be, and otherwise answered at once. -/
theorem modes_agree (checker : Checker) (steps : List Json)
    (check : Inquiry checker steps .validateOnly) (plan : Inquiry checker steps .dryRun)
    (run : Inquiry checker steps .execute) :
    (∀ policy executor c log, Chronicle policy executor c log → ∀ session ∈ c.sessions,
      session.request.mode ≠ .execute → ∀ deaf p, c.Steps session deaf p →
        (∃ response, p.2 = .ends response) ∧
        (c.settle session p).world.calls = c.world.calls ∧
        ∃ event, event.isWorkflowEvent = true ∧
          c.world.Tells (c.settle session p).world [event]) ∧
    (∀ policy executor c log, Chronicle policy executor c log → ∀ e ∈ c.ends, ∀ taken,
      .taken taken ∈ notesOf e.handle log → .cancel taken.id ∉ log →
        (taken.request.mode = .execute → executor.Spares taken.id) →
          e.response.status ≠ .cancelled) ∧
    (∀ policy executor c log, Chronicle policy executor c log → policy.maxConcurrent ≠ 0 →
      c.free ≠ 0 → ∀ request, ¬(c.find? (c.nameFor c.handles request)).isSome = true →
        ∃ taken more, Entry policy executor c (c.received.accept c.handles request) c.handles
          request (log ++ more) taken ∧
        (request.mode ≠ .execute → ∀ n, (call n c request).1 =
          ((c.received.accept c.handles request).end? c.handles).map End.response)) ∧
    check.starts = [] ∧ plan.starts = [] ∧
    (check.response.success = true ↔ plan.response.success = true) ∧
    (plan.response.success = true ↔ run.starts ≠ []) ∧
    (run.starts ≠ [] ↔ checker.Passes steps) ∧
    (∀ faults, Step.parse steps = .error faults →
      ∀ response ∈ [check.response, plan.response, run.response],
        response.Refuses faults.collapse) ∧
    ∀ root, Step.parse steps = .ok root →
      ∀ response ∈ [check.response, plan.response, run.response],
        response.validation = some (checker.validate root) := by
  have checks : check.response.success = true ↔ checker.Passes steps :=
    check.success_iff (by decide)
  have plans : plan.response.success = true ↔ checker.Passes steps :=
    plan.success_iff (by decide)
  have runs : run.starts ≠ [] ↔ checker.Passes steps := by
    rw [run.starts_ne_nil_iff]
    exact and_iff_right rfl
  have unrun {mode : Mode} (inquiry : Inquiry checker steps mode) (mild : mode ≠ .execute) :
      inquiry.starts = [] := by
    by_contra ran
    exact mild (inquiry.starts_ne_nil_iff.1 ran).1
  refine ⟨?steps, ?answers, ?entries, unrun check (by decide), unrun plan (by decide),
    checks.trans plans.symm, plans.trans runs.symm, runs, ?unread, ?read⟩
  case steps =>
    intro policy executor c log chronicle session member mode deaf p steps
    exact chronicle.checks member mode steps
  case answers =>
    intro policy executor c log chronicle e member taken accepted live spares
    exact chronicle.status_ne_cancelled member accepted live spares
  case entries =>
    intro policy executor c log chronicle gate room request unknown
    exact chronicle.calls gate room unknown
  case unread =>
    intro faults unread
    simp only [List.mem_cons, List.not_mem_nil, or_false, forall_eq_or_imp, forall_eq]
    exact ⟨check.refuses unread, plan.refuses unread, run.refuses unread⟩
  case read =>
    intro root parsed
    simp only [List.mem_cons, List.not_mem_nil, or_false, forall_eq_or_imp, forall_eq]
    exact ⟨check.validation_eq parsed, plan.validation_eq parsed, run.validation_eq parsed⟩

/-! ## An errand in every mode -/

/-- Answers at once that all is well. -/
def prompt : Executor := fun _ _ => ⟨0, [], .ok .null, []⟩

/-- The session of an errand in some mode when it is let through the gate. -/
def sent (mode : Mode) : Session :=
  newcomer (make .standard prompt) 0 "run" { errand with mode := mode } .admitted

theorem proceed_sent (mode : Mode) : ∃ world response,
    (sent mode).proceed ⟨prompt, .standard⟩ .standard .empty = (world, .ends response) ∧
      response.status ≠ .cancelled := by
  have parsed : Step.parse (sent mode).request.steps = .ok fetch := parse_errand
  have live : (sent mode).cancelled = false := rfl
  unfold Session.proceed
  rw [if_neg (ne_true_of_eq_false live)]
  cases mode with
  | validateOnly =>
    have purpose : (sent .validateOnly).request.mode = .validateOnly := rfl
    simp only [parsed, purpose, Session.checkResponse, isValid_fetch, if_true]
    exact ⟨_, _, rfl, nofun⟩
  | dryRun =>
    have purpose : (sent .dryRun).request.mode = .dryRun := rfl
    simp only [parsed, purpose, isValid_fetch]
    exact ⟨_, _, rfl, nofun⟩
  | execute =>
    have purpose : (sent .execute).request.mode = .execute := rfl
    simp only [parsed, purpose, isValid_fetch]
    exact ⟨_, _, rfl, nofun⟩

/-- The errand is answered in every mode. -/
theorem exists_inquiry (mode : Mode) : Nonempty
    (Inquiry ⟨Policy.standard.limits, Policy.standard.catalog⟩ errand.steps mode) := by
  let through : Coordinator :=
    { (make .standard prompt).received with sessions := [sent mode], free := 9 }
  have received : Chronicle .standard prompt (make .standard prompt).received [] :=
    (chronicle_make .standard prompt numberedId).does (.receive _)
  have other (session : Session) (member : session ∈ (make .standard prompt).received.sessions) :
      session.id ≠ "run" := absurd member List.not_mem_nil
  have entered : Chronicle .standard prompt through [.of 0 (.taken (sent mode))] :=
    received.does (.enter List.not_mem_nil (by decide) { errand with mode := mode } (by decide)
      other (by decide))
  obtain ⟨world, response, gone, status⟩ := proceed_sent mode
  obtain ⟨notes, tells⟩ := exists_tells_proceed through (sent mode) rfl
  have steps : through.Steps (sent mode) false (world, .ends response) := gone ▸ .begin rfl false
  have tells : through.Tells (sent mode) notes (world, .ends response) := gone ▸ tells
  have inside : sent mode ∈ through.sessions := List.mem_cons_self
  have answered := List.mem_of_find?_eq_some (entered.sound.end?_settle inside steps)
  obtain ⟨more, stepped, -⟩ := entered.step inside steps tells
  refine ⟨_, _, _, _, sent mode, ⟨0, world.now, response⟩, stepped, rfl, ?_, rfl, rfl, answered,
    status⟩
  rw [notesOf_append]
  exact List.mem_append_left _ List.mem_cons_self

/-- The errand can be read and passes the checks, so it succeeds in every mode, and a new
coordinator lets it through at once. -/
theorem modes_agree_errand :
    ∃ (check : Inquiry ⟨Policy.standard.limits, Policy.standard.catalog⟩ errand.steps .validateOnly)
      (plan : Inquiry ⟨Policy.standard.limits, Policy.standard.catalog⟩ errand.steps .dryRun)
      (run : Inquiry ⟨Policy.standard.limits, Policy.standard.catalog⟩ errand.steps .execute),
      (∀ mode, ∃ taken more, Entry .standard prompt (make .standard prompt)
        ((make .standard prompt).received.accept 0 { errand with mode := mode }) 0
        { errand with mode := mode } more taken) ∧
      check.starts = [] ∧ plan.starts = [] ∧
      (check.response.success = true ↔ plan.response.success = true) ∧
      (plan.response.success = true ↔ run.starts ≠ []) ∧
      ∀ response ∈ [check.response, plan.response, run.response], response.validation =
        some (Checker.validate ⟨Policy.standard.limits, Policy.standard.catalog⟩ fetch) := by
  obtain ⟨check⟩ := exists_inquiry .validateOnly
  obtain ⟨plan⟩ := exists_inquiry .dryRun
  obtain ⟨run⟩ := exists_inquiry .execute
  obtain ⟨-, -, enters, unchecked, unplanned, checks, plans, -, -, found⟩ :=
    modes_agree _ _ check plan run
  refine ⟨check, plan, run, fun mode => ?_, unchecked, unplanned, checks, plans,
    found fetch parse_errand⟩
  obtain ⟨taken, more, entry, -⟩ := enters .standard prompt _ _
    (chronicle_make .standard prompt numberedId) (by decide) (by decide)
    { errand with mode := mode } Bool.false_ne_true
  exact ⟨taken, more, entry⟩

end Coordinator

end Stepwise
