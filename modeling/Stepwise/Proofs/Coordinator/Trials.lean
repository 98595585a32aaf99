import Stepwise.Proofs.Coordinator.Notes
import Stepwise.Proofs.Run.Clock

/-!
# Trials of a request

What the notes of a request say, from the moment it is taken until it is answered. `Tried` is the
law of the runs that have failed and were followed by a pause, `Told` says what is known of a
session that goes on, and `Closed` of one that has ended. A step of a run keeps to them
(`After.settles`), and so does every step of a session (`Tells.settles`).
-/

namespace Stepwise

/-- A run that has returned. -/
structure Ran where
  start : RunState
  last : RunState
  outcome : Except Fault RunResult

/-- What is noted of a run: that it is launched, and what it comes to. -/
def Ran.notes (run : Ran) : List Note := [.launched run.start, .returned run.last run.outcome]

/-- The notes of some runs of which each was followed by a pause. -/
def retold (policy : Policy) (runs : List Ran) : List Note :=
  runs.zipIdx.flatMap fun (run, retries) => run.notes ++ [.paused (policy.pause retries)]

@[simp] theorem retold_nil (policy : Policy) : retold policy [] = [] := rfl

@[simp] theorem retold_append_singleton (policy : Policy) (runs : List Ran) (run : Ran) :
    retold policy (runs ++ [run]) =
      retold policy runs ++ (run.notes ++ [.paused (policy.pause runs.length)]) := by
  simp [retold, List.zipIdx_append]

/-- A run that failed and the pause after it are noted after those before. -/
theorem retold_failed (policy : Policy) (before : List Ran) (start s : RunState)
    (outcome : Except Fault RunResult) (notes : List Note) :
    retold policy before ++ [.launched start] ++
        (.returned s outcome :: .paused (policy.pause before.length) :: notes) =
      retold policy (before ++ [⟨start, s, outcome⟩]) ++ notes := by
  simp [Ran.notes]

/-- A run begins after some others: with nothing but the parameters of the request, with nothing put
off, and as soon as the pause after the last one is over. -/
structure Begins (policy : Policy) (taken : Session) (before : List Ran) (start : RunState) :
    Prop where
  fresh : start.context =
    .fresh taken.request.workflowId taken.id taken.request.parameters
  settled : start.world.openings = []
  rested : ∀ run ∈ before.getLast?,
    start.now = run.last.world.afterPause (policy.pause (before.length - 1))

/-- Some runs of a request have failed, one after the other, and each may be followed by another. -/
structure Tried (engine : Engine) (policy : Policy) (taken : Session) (plan : Plan)
    (runs : List Ran) : Prop where
  room : runs.length ≤ plan.maxRetries
  begins : ∀ n (bound : n < runs.length), Begins policy taken (runs.take n) runs[n].start
  went : ∀ run ∈ runs,
    Run.Undisturbed engine plan.root plan.timeout run.start (run.last, .ended run.outcome)
  failed : ∀ run ∈ runs, ∃ fault, run.outcome = .error fault ∧ fault.isRetryable = true

/-- What others leave of a session. They may let it through the gate, and cancel it if they have a
reason to. -/
structure Session.Left (reason : String → Prop) (session next : Session) : Prop where
  handle : next.handle = session.handle
  id : next.id = session.id
  request : next.request = session.request
  retries : next.retries = session.retries
  phase : next.phase = session.phase ∨ session.phase = .queued ∧ next.phase = .admitted
  cancelled : next.cancelled = true → session.cancelled = true ∨ reason session.id
  live : next.cancelled = false → session.cancelled = false ∧ next.context = session.context

/-- What is known from its notes of a session in some phase. -/
inductive Told (engine : Engine) (policy : Policy) (taken : Session) (world : World)
    (session : Session) : SessionPhase → List Note → Prop
  | waits (retries : session.retries = 0) :
      Told engine policy taken world session .queued [.taken taken]
  | enters (retries : session.retries = 0) :
      Told engine policy taken world session .admitted [.taken taken]
  | runs {plan : Plan} {activity : Activity} {bound : Option Run.TimeLimit} {before : List Ran}
      {start : RunState} (planned : Planned policy taken.request plan)
      (tried : Tried engine policy taken plan before) (retries : session.retries = before.length)
      (went : session.cancelled = false → Begins policy taken before start ∧
        ∃ s : RunState, session.context = some s.context ∧ s.world.tickets ≤ world.tickets ∧
          Run.Undisturbed engine plan.root plan.timeout start (s, .active activity bound)) :
      Told engine policy taken world session (.executing plan activity bound)
        (.taken taken :: (retold policy before ++ [.launched start]))
  | rests {plan : Plan} {ticket due : Nat} {before : List Ran} {run : Ran}
      (planned : Planned policy taken.request plan)
      (tried : Tried engine policy taken plan (before ++ [run]))
      (retries : session.retries = before.length + 1)
      (long : policy.pause before.length ≠ .zero)
      (past : due = run.last.world.wakeAt (policy.pause before.length)) (ahead : world.now ≤ due) :
      Told engine policy taken world session (.pausing plan ticket due)
        (.taken taken :: retold policy (before ++ [run]))

/-- What the last run of a request means for the answer. -/
inductive Closes (plan : Plan) (retries : Nat) (struck : Prop) (final : Ran) (response : Response) :
    Prop
  | completes {result : RunResult} (outcome : final.outcome = .ok result)
      (good : result.isCancelled = false) (status : response.status = .completed)
      (shown : response.result = some (.obj result.results))
  | fails {fault : Fault} (outcome : final.outcome = .error fault)
      (plain : fault.isCancelled = false)
      (last : fault.isRetryable = true → plan.maxRetries ≤ retries)
      (status : response.status = .ofFault fault)
      (shown : response.result = some (.obj final.last.context.results))
  /-- The run was cancelled, or the request was. -/
  | stops (reason : struck ∨ ¬Run.Uncancelled final.outcome) (cancelled : response.IsCancelled)

/-- What is known of an answered request from its notes: it was not run at all, it was cancelled
while it rested, or its last run was followed by the answer. -/
inductive Closed (engine : Engine) (policy : Policy) (taken : Session) (struck : Prop)
    (response : Response) : List Note → Prop
  | unrun (reason : struck ∨ ∀ plan, ¬Planned policy taken.request plan) :
      Closed engine policy taken struck response [.taken taken]
  | rested {plan : Plan} {before : List Ran} {run : Ran}
      (planned : Planned policy taken.request plan)
      (tried : Tried engine policy taken plan (before ++ [run])) (reason : struck)
      (cancelled : response.IsCancelled) (retries : response.retries = before.length + 1) :
      Closed engine policy taken struck response (.taken taken :: retold policy (before ++ [run]))
  | ran {plan : Plan} {before : List Ran} {final : Ran}
      (planned : Planned policy taken.request plan) (tried : Tried engine policy taken plan before)
      (went : struck ∨ Begins policy taken before final.start ∧
        Run.Undisturbed engine plan.root plan.timeout final.start
          (final.last, .ended final.outcome))
      (retries : response.retries = before.length)
      (closes : Closes plan before.length struck final response) :
      Closed engine policy taken struck response
        (.taken taken :: (retold policy before ++ final.notes))

/-- What a step leaves of a session agrees with the notes. -/
inductive Settles (engine : Engine) (policy : Policy) (taken : Session) (struck : Prop)
    (world : World) : Move → List Note → Prop
  | stays {next : Session} {notes : List Note} (id : taken.id = next.id)
      (request : taken.request = next.request)
      (told : Told engine policy taken world next next.phase notes) :
      Settles engine policy taken struck world (.stays next) notes
  | ends {response : Response} {notes : List Note} (id : taken.id = response.executionId)
      (closed : Closed engine policy taken struck response notes) :
      Settles engine policy taken struck world (.ends response) notes

variable {engine : Engine} {policy : Policy} {plan : Plan} {taken session : Session}
  {world later : World} {before : List Ran} {start s : RunState} {struck : Prop} {notes : List Note}
  {p : World × Move}

namespace Session.Left

variable {reason : String → Prop} {middle next : Session}

theorem refl (session : Session) : session.Left reason session :=
  ⟨rfl, rfl, rfl, rfl, .inl rfl, .inl, fun live => ⟨live, rfl⟩⟩

theorem trans (first : session.Left reason middle) (second : middle.Left reason next) :
    session.Left reason next := by
  refine ⟨second.handle.trans first.handle, second.id.trans first.id,
    second.request.trans first.request, second.retries.trans first.retries, ?_, fun cancelled => ?_,
    fun live => ?_⟩
  · rcases second.phase with same | ⟨queued, admitted⟩
    · rw [same]
      exact first.phase
    · rcases first.phase with before | ⟨-, before⟩
      · exact .inr ⟨before ▸ queued, admitted⟩
      · rw [before] at queued
        cases queued
  · rcases second.cancelled cancelled with cancelled | asked
    · exact first.cancelled cancelled
    · exact .inr (first.id ▸ asked)
  · obtain ⟨live, same⟩ := second.live live
    exact ⟨(first.live live).1, same.trans (first.live live).2⟩

theorem cancel (session : Session) (asked : reason session.id) (now : Nat) :
    session.Left reason (session.cancel now) :=
  ⟨rfl, rfl, rfl, rfl, .inl rfl, fun _ => .inr asked, nofun⟩

theorem pass (queued : session.phase = .queued) :
    session.Left reason { session with phase := .admitted } :=
  ⟨rfl, rfl, rfl, rfl, .inr ⟨queued, rfl⟩, .inl, fun live => ⟨live, rfl⟩⟩

end Session.Left

theorem begins_nil (fresh : start.context =
      .fresh taken.request.workflowId taken.id taken.request.parameters)
    (settled : start.world.openings = []) : Begins policy taken [] start := ⟨fresh, settled, nofun⟩

theorem Tried.nil : Tried engine policy taken plan [] :=
  ⟨Nat.zero_le _, fun _ bound => absurd bound (Nat.not_lt_zero _), nofun, nofun⟩

theorem Tried.append_singleton (h : Tried engine policy taken plan before) (run : Ran)
    (more : before.length < plan.maxRetries) (begins : Begins policy taken before run.start)
    (went : Run.Undisturbed engine plan.root plan.timeout run.start (run.last, .ended run.outcome))
    {fault : Fault} (failed : run.outcome = .error fault) (retryable : fault.isRetryable = true) :
    Tried engine policy taken plan (before ++ [run]) := by
  refine ⟨?_, fun n bound => ?_, fun other member => ?_, fun other member => ?_⟩
  · rw [List.length_append]
    exact more
  · rw [List.length_append, List.length_singleton] at bound
    rcases Nat.lt_succ_iff_lt_or_eq.1 bound with earlier | rfl
    · rw [List.take_append_of_le_length (Nat.le_of_lt earlier), List.getElem_append_left earlier]
      exact h.begins n earlier
    · rw [List.take_left, List.getElem_concat_length rfl]
      exact begins
  · rcases List.mem_append.1 member with member | member
    · exact h.went other member
    · cases List.mem_singleton.1 member
      exact went
  · rcases List.mem_append.1 member with member | member
    · exact h.failed other member
    · cases List.mem_singleton.1 member
      exact ⟨fault, failed, retryable⟩

/-- What is known of a session is known of what others leave of it, while the world goes on and no
time passes beyond the end of its pause. -/
theorem Told.left {reason : String → Prop} {next : Session}
    (h : Told engine policy taken world session session.phase notes)
    (left : session.Left reason next) (tickets : world.tickets ≤ later.tickets)
    (ahead : ∀ plan ticket due, session.phase = .pausing plan ticket due → world.now ≤ due →
      later.now ≤ due) : Told engine policy taken later next next.phase notes := by
  generalize before : session.phase = phase at h
  have kept (through : phase ≠ .queued) : next.phase = phase := by
    rcases left.phase with same | ⟨queued, -⟩
    · exact same.trans before
    · exact absurd (before.symm.trans queued) through
  cases h with
  | waits retries =>
    have retries := left.retries.trans retries
    rcases left.phase with same | ⟨-, admitted⟩
    · rw [same, before]
      exact .waits retries
    · rw [admitted]
      exact .enters retries
  | enters retries =>
    rw [kept nofun]
    exact .enters (left.retries.trans retries)
  | runs planned tried retries went =>
    rw [kept nofun]
    refine .runs planned tried (left.retries.trans retries) fun live => ?_
    obtain ⟨live, current⟩ := left.live live
    obtain ⟨begins, s, known, held, went⟩ := went live
    exact ⟨begins, s, current.trans known, Nat.le_trans held tickets, went⟩
  | rests planned tried retries long past early =>
    rw [kept nofun]
    exact .rests planned tried (left.retries.trans retries) long past (ahead _ _ _ before early)

theorem Closed.mono {response : Response} (h : Closed engine policy taken struck response notes)
    {still : Prop} (stays : struck → still) : Closed engine policy taken still response notes := by
  cases h with
  | unrun reason => exact .unrun (reason.imp_left stays)
  | rested planned tried reason cancelled retries =>
    exact .rested planned tried (stays reason) cancelled retries
  | ran planned tried went retries closes =>
    refine .ran planned tried (went.imp_left stays) retries ?_
    cases closes with
    | completes outcome good status shown => exact .completes outcome good status shown
    | fails outcome plain last status shown => exact .fails outcome plain last status shown
    | stops reason cancelled => exact .stops (reason.imp_left stays) cancelled

namespace Session

@[simp] theorem retries_back (session : Session) (s : RunState) :
    (session.back s).retries = session.retries := by rw [back_eq]

@[simp] theorem id_back (session : Session) (s : RunState) :
    (session.back s).id = session.id := by rw [back_eq]

/-- The run that is launched for a session begins with nothing but the parameters. -/
theorem fresh_outset (live : session.cancelled = false) (id : taken.id = session.id)
    (request : taken.request = session.request) (world : World) :
    (session.outset world).context =
      .fresh taken.request.workflowId taken.id taken.request.parameters := by
  rw [outset, freshContext, live, id, request]
  rfl

/-- After a step of a run its session is as its notes tell. -/
theorem After.settles {q : RunState × Run.Stage}
    (after : After engine policy plan session q notes p)
    (planned : Planned policy taken.request plan)
    (tried : Tried engine policy taken plan before) (settled : q.1.world.openings = [])
    (id : taken.id = session.id) (request : taken.request = session.request)
    (retries : session.retries = before.length)
    (went : session.cancelled = false → Begins policy taken before start ∧
      Run.Undisturbed engine plan.root plan.timeout start q)
    (dead : session.cancelled = true → struck) (asked : session.id ∈ p.1.requests → struck) :
    Settles engine policy taken struck p.1 p.2
      (.taken taken :: (retold policy before ++ [.launched start] ++ notes)) := by
  -- The last run of a session that ends, unless it was cancelled, is one that nobody disturbed.
  have ends {session : Session} {s : RunState} {before : List Ran} {start : RunState}
      {outcome : Except Fault RunResult} {response : Response}
      (tried : Tried engine policy taken plan before)
      (went : session.cancelled = false → Begins policy taken before start ∧
        Run.Undisturbed engine plan.root plan.timeout start (s, .ended outcome))
      (dead : session.cancelled = true → struck) (id : taken.id = response.executionId)
      (retries : response.retries = before.length)
      (closes : Closes plan before.length struck ⟨start, s, outcome⟩ response) :
      Settles engine policy taken struck s.world (.ends response)
        (.taken taken :: (retold policy before ++ [.launched start] ++ [.returned s outcome])) := by
    have went : struck ∨ Begins policy taken before start ∧
        Run.Undisturbed engine plan.root plan.timeout start (s, .ended outcome) := by
      cases cancelled : session.cancelled with
      | true => exact .inl (dead cancelled)
      | false => exact .inr (went cancelled)
    refine .ends id ?_
    rw [List.append_assoc]
    exact .ran planned tried went retries closes
  induction after generalizing before start with
  | @waits session s activity bound =>
    rw [List.append_nil]
    refine .stays id request (.runs planned tried retries fun live => ?_)
    obtain ⟨begins, went⟩ := went live
    exact ⟨begins, s, rfl, Nat.le_refl _, went⟩
  | @completes session s result good =>
    refine ends tried went dead (id.trans (session.id_back s).symm)
      ((session.retries_back s).trans retries) (.completes rfl good rfl rfl)
  | @stops session s outcome reason partialResult =>
    refine ends tried went dead (id.trans (session.id_back s).symm)
      ((session.retries_back s).trans retries) (.stops ?_ ⟨rfl, rfl, rfl⟩)
    refine reason.imp_left fun cancelled => ?_
    rw [cancelled_back, Bool.or_eq_true] at cancelled
    exact cancelled.elim dead fun inside => asked (List.contains_iff_mem.1 inside)
  | @fails session s fault plain final =>
    refine ends tried went dead (id.trans (session.id_back s).symm)
      ((session.retries_back s).trans retries) (.fails rfl plain (fun retryable => ?_) rfl rfl)
    rw [← retries]
    exact final retryable
  | @pauses session s fault live retryable more long =>
    rw [cancelled_back, Bool.or_eq_false_iff] at live
    rw [retries] at more long ⊢
    obtain ⟨begins, went⟩ := went live.1
    have tried := tried.append_singleton ⟨start, s, .error fault⟩ more begins went rfl retryable
    rw [retold_failed, List.append_nil]
    refine .stays id request (.rests planned tried ?_ long rfl (s.world.now_le_wakeAt _))
    exact congrArg (· + 1) retries
  | @repeats session s fault notes p live retryable more short next ih =>
    rw [cancelled_back, Bool.or_eq_false_iff] at live
    rw [retries] at more short ⊢
    obtain ⟨begins, went⟩ := went live.1
    have tried := tried.append_singleton ⟨start, s, .error fault⟩ more begins went rfl retryable
    have begins : Begins policy taken (before ++ [⟨start, s, .error fault⟩])
        ((session.retrying s).outset (session.announced policy fault s)) := by
      refine ⟨fresh_outset live.1 id request _, settled, fun run member => ?_⟩
      rw [List.getLast?_concat] at member
      cases Option.mem_some.1 member
      rw [List.length_append, List.length_singleton, Nat.add_sub_cancel, short]
      rfl
    have settles := ih tried (Run.settled_launch settled) id request ?_ (fun _ => ⟨begins, .launch⟩)
      dead asked
    · rw [retold_failed]
      rwa [List.append_assoc] at settles
    · rw [List.length_append]
      exact congrArg (· + 1) retries

/-- No time passes when a run is launched. -/
theorem now_launch (engine : Engine) (root : Node) (limit : Option Duration) (s : RunState) :
    (Run.launch engine root limit s).1.now = s.now := by
  have acts : Acts engine .heeding root.ids s (Run.launch engine root limit s).1 :=
    Run.acts_launch Manner.noConfusion
  exact acts.now

/-- No time passes in what follows a step of a run. -/
theorem After.now {q : RunState × Run.Stage} (after : After engine policy plan session q notes p) :
    p.1.now = q.1.now := by
  induction after with
  | repeats live retryable more short next ih =>
    exact ih.trans (now_launch ..)
  | waits | completes | stops | fails | pauses => rfl

end Session

namespace Coordinator

variable {c : Coordinator}

/-- No time passes when a session goes on. -/
theorem Tells.now (tells : c.Tells session notes p) (sound : session.Sound c.world) :
    p.1.now = c.world.now := by
  cases tells with
  | declines | stops => rfl
  | begins phase live planned after =>
    exact after.now.trans (Session.now_launch ..)
  | resumes phase past after => exact after.now.trans (Session.now_launch ..)
  | @goesOn plan activity bound context phase current stimulus idle notes p after =>
    unfold Session.Sound at sound
    simp only [phase] at sound
    obtain ⟨known, runs⟩ := sound
    cases current.symm.trans runs.current
    exact after.now.trans (Run.acts_step_deaf runs.sound stimulus).now

/-- A session that goes on is as its notes tell, before and after. -/
theorem Tells.settles {before : List Note} (tells : c.Tells session notes p)
    (told : Told c.engine c.policy taken c.world session session.phase before)
    (settled : c.world.openings = []) (sound : session.Sound c.world) (id : taken.id = session.id)
    (request : taken.request = session.request) (dead : session.cancelled = true → struck)
    (asked : session.id ∈ p.1.requests → struck) :
    Settles c.engine c.policy taken struck p.1 p.2 (before ++ notes) := by
  cases tells with
  | declines phase reason own =>
    rw [phase] at told
    cases told with
    | enters retries =>
      refine .ends (id.trans own.symm) (.unrun (reason.imp dead fun unplanned => ?_))
      rwa [request]
  | @begins phase live plan planned notes p after =>
    rw [phase] at told
    cases told with
    | enters retries =>
      rw [← request] at planned
      have begins : Begins c.policy taken [] (session.outset (c.opened session plan)) :=
        begins_nil (Session.fresh_outset live id request _) settled
      exact after.settles planned .nil (Run.settled_launch settled) id request retries
        (fun _ => ⟨begins, .launch⟩) dead asked
  | @goesOn plan activity bound context phase current stimulus idle notes p after =>
    rw [phase] at told
    cases told with
    | runs planned tried retries went =>
      unfold Session.Sound at sound
      simp only [phase] at sound
      obtain ⟨own, runs⟩ := sound
      cases current.symm.trans runs.current
      have calm : (Run.step c.engine ⟨c.world, context⟩ (.active activity bound)
          stimulus).1.world.openings = [] := Run.settled_step runs.sound settled stimulus
      refine after.settles planned tried calm id request retries (fun live => ?_) dead asked
      obtain ⟨begins, s, known, tickets, went⟩ := went live
      cases current.symm.trans known
      exact ⟨begins, went.step tickets settled idle⟩
  | stops phase cancelled partialResult =>
    rw [phase] at told
    cases told with
    | rests planned tried retries long past ahead =>
      rw [List.append_nil]
      exact .ends id (.rested planned tried (dead cancelled) ⟨rfl, rfl, rfl⟩ retries)
  | resumes phase past after =>
    rw [phase] at told
    cases told with
    | @rests plan ticket due before run planned tried retries long due ahead =>
      have begins (live : session.cancelled = false) :
          Begins c.policy taken (before ++ [run]) (session.outset c.world) := by
        refine ⟨Session.fresh_outset live id request _, settled, fun last member => ?_⟩
        rw [List.getLast?_concat] at member
        cases Option.mem_some.1 member
        rw [List.length_append, List.length_singleton, Nat.add_sub_cancel, World.afterPause,
          if_neg long, ← due]
        exact Nat.le_antisymm ahead past
      have counted : session.retries = (before ++ [run]).length := by
        rw [List.length_append]
        exact retries
      have settles := after.settles planned tried (Run.settled_launch settled) id request counted
        (fun live => ⟨begins live, .launch⟩) dead asked
      rwa [List.append_assoc] at settles

end Coordinator

end Stepwise
