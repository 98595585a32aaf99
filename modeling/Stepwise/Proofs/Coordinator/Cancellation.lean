import Mathlib.Data.List.Permutation
import Stepwise.Proofs.Coordinator.Rest

/-!
# Cancelled requests

A cancellation that is accepted decides how a request ends. However the coordinator goes on, its
response is that of a cancelled one, and whatever the session waits for ends it; and no call is
made in its name any more, unless the end of a delay is noticed before the cancellation that it
meets. This holds at the gate, in a run and in the pause after one, whether the run's time is up or
one of its calls fails after the cancellation.
-/

namespace Stepwise

namespace Coordinator

/-- No call has been made since in the name of an execution. -/
def Silent (c later : Coordinator) (id : String) : Prop :=
  ∃ made, later.world.calls = c.world.calls ++ made ∧
    ∀ entry ∈ made, entry.context.executionId ≠ id

/-- A cancelled session without an end. At the gate it has a place in the queue, and once it is
let through one in the line; otherwise it has an alarm. Its turn, if it does not wait for answers
alone, and its alarm both end it. -/
structure Waits (c : Coordinator) (session : Session) : Prop where
  cancelled : session.cancelled = true
  found : c.session? session.handle = some session
  no_end : c.end? session.handle = none
  queued : session.phase = .queued → session.handle ∈ c.queue
  admitted : session.phase = .admitted → .session session.handle ∈ c.ready
  alarmed : session.phase ≠ .queued → session.phase ≠ .admitted →
    ∃ alarm, alarm? c.world.now session = some alarm
  turn : session.phase = .admitted ∨ session.isNapping = true → ∀ ready,
    ((c.standing ready).turn (.session session.handle)).Served session.handle session.id
  ring : ∀ alarm, alarm? c.world.now session = some alarm →
    (c.ring alarm).Served session.handle session.id

variable {rules : Rules} {manner : Manner} {c later : Coordinator} {session : Session}
  {handle : Nat} {id : String}

/-! ## What ends a cancelled session -/

theorem served_settle {p : World × Move} (comes : session.Comes p.1 p.2)
    (cancelled : session.cancelled = true) (ended : ∃ response, p.2 = .ends response) :
    (c.settle session p).Served session.handle session.id := by
  obtain ⟨world, move⟩ := p
  obtain ⟨response, rfl⟩ := ended
  cases comes with
  | ends own obeys =>
    exact ⟨_, List.mem_append_right _ List.mem_cons_self, rfl, own, obeys cancelled⟩

/-- A cancelled session that ends with a step ends as such. -/
theorem served_steps {deaf : Bool} {p : World × Move} (steps : c.Steps session deaf p)
    (sound : session.Sound c.world) (cancelled : session.cancelled = true)
    (ended : ∃ response, p.2 = .ends response) :
    (c.settle session p).Served session.handle session.id :=
  served_settle (steps.goes_deaf sound).comes cancelled ended

/-- A cancelled session ends with its turn if it has just been let through, or waits for anything
but answers. -/
theorem served_stimulate (sound : session.Sound c.world) (cancelled : session.cancelled = true)
    (idle : session.phase = .admitted ∨ session.isNapping = true) :
    (c.stimulate session .heed).Served session.handle session.id := by
  have sound' := sound
  unfold Session.Sound at sound
  unfold Session.isNapping at idle
  unfold stimulate
  split
  · next phase => simp [phase] at idle
  · next phase =>
    exact served_steps (.begin phase false) sound' cancelled
      (Session.ends_proceed cancelled c.world)
  · next phase =>
    simp only [phase] at sound idle
    obtain ⟨context, runs⟩ := sound
    exact served_steps (.goOn phase .heed) sound' cancelled
      (runs.ends_of_heed cancelled (idle.resolve_left nofun))
  · next phase =>
    rw [cancelled]
    exact served_steps (.rest phase false) sound' cancelled
      (Session.ends_rested cancelled c.world)

/-- A cancelled session ends with its alarm. -/
theorem served_ring (found : c.session? session.handle = some session)
    (sound : session.Sound c.world) (cancelled : session.cancelled = true) {alarm : Alarm}
    (rings : alarm? c.world.now session = some alarm) :
    (c.ring alarm).Served session.handle session.id := by
  have passed : session.Sound (c.asOf alarm.due).world := sound.mono (Nat.le_refl _)
  rw [ring_eq (handle_of_alarm rings ▸ found)]
  unfold Session.Sound at sound
  unfold alarm? at rings
  unfold stimulate
  split
  · next phase => simp [phase] at rings
  · next phase => simp [phase] at rings
  · next phase =>
    simp only [phase] at sound rings
    obtain ⟨context, runs⟩ := sound
    obtain ⟨due, stimulus, next, ends⟩ := runs.ends_by_clock c.engine c.policy cancelled
    rw [next] at rings
    cases rings
    exact served_steps (.goOn phase stimulus) passed cancelled (ends due)
  · next phase =>
    simp only [phase] at rings
    cases rings
    rw [cancelled]
    exact served_steps (.rest phase false) passed cancelled (Session.ends_rested cancelled _)

/-- A cancelled session in a run or in the pause after one has an alarm. -/
theorem exists_alarm (sound : session.Sound c.world) (cancelled : session.cancelled = true)
    (through : session.phase ≠ .queued) (begun : session.phase ≠ .admitted) :
    ∃ alarm, alarm? c.world.now session = some alarm := by
  unfold Session.Sound at sound
  unfold alarm?
  split
  · next phase =>
    simp only [phase] at sound
    obtain ⟨context, runs⟩ := sound
    obtain ⟨due, stimulus, next, -⟩ := runs.ends_by_clock c.engine c.policy cancelled
    rw [next]
    exact ⟨_, rfl⟩
  · exact ⟨_, rfl⟩
  · next phase => exact absurd phase through
  · next phase => exact absurd phase begun

/-! ## From the cancellation on -/

theorem Silent.trans {middle : Coordinator} (first : c.Silent middle id)
    (second : middle.Silent later id) : c.Silent later id := by
  obtain ⟨made, calls, none⟩ := first
  obtain ⟨more, calls', none'⟩ := second
  refine ⟨made ++ more, ?_, fun entry member => ?_⟩
  · rw [calls', calls, List.append_assoc]
  · exact (List.mem_append.1 member).elim (none entry) (none' entry)

/-- Whoever heeds its cancellation makes no call. -/
theorem Moves.silent (move : Moves rules c later) (sound : c.Sound) (heed : rules.heed)
    (condemned : c.Condemned handle id) : c.Silent later id := by
  have goes : Goes .heeding c later := move.goes sound fun _ => heed
  obtain ⟨made, calls, none⟩ := goes.calls
  exact ⟨made, calls, none Manner.noConfusion handle id condemned⟩

/-- A move may be deaf to cancellations. -/
theorem Moves.goes_deaf (move : Moves rules c later) (sound : c.Sound) : Goes .deaf c later :=
  move.goes sound fun hearing => absurd rfl hearing

theorem Leads.served (leads : Leads rules c later) (rest : c.AtRest) (served : c.Served handle id) :
    later.Served handle id := by
  induction leads with
  | refl => exact served
  | tail before move ih =>
    exact (move.goes_deaf (Leads.sound before rest.sound)).served handle id ih

/-- A cancelled session stays one until it has its end, and makes no calls if it heeds that. -/
theorem Leads.condemned (leads : Leads rules c later) (rest : c.AtRest)
    (condemned : c.Condemned handle id) :
    later.Condemned handle id ∧ (rules.heed → c.Silent later id) ∨ later.Served handle id := by
  induction leads with
  | refl =>
    exact .inl ⟨condemned, fun _ =>
      ⟨[], (List.append_nil _).symm, fun _ member => absurd member List.not_mem_nil⟩⟩
  | tail before move ih =>
    have sound := Leads.sound before rest.sound
    have goes := move.goes_deaf sound
    rcases ih with ⟨still, silent⟩ | served
    · exact (goes.condemned handle id still).imp_left fun still' =>
        ⟨still', fun heed => (silent heed).trans (move.silent sound heed still)⟩
    · exact .inr (goes.served handle id served)

/-- Of a cancelled session without an end it is known what it waits for. -/
theorem Condemned.waits (condemned : c.Condemned handle id) (rest : c.AtRest) :
    ∃ session, session.handle = handle ∧ session.id = id ∧ c.Waits session := by
  have no_end := condemned.no_end rest.sound
  obtain ⟨session, member, rfl, own, cancelled⟩ := condemned
  have found := rest.sound.session?_eq member
  have fit := rest.sound.sessions session member
  refine ⟨session, rfl, own, cancelled, found, no_end, rest.sound.gated session member,
    fun admitted => (rest.lined session member admitted).resolve_right nofun,
    exists_alarm fit cancelled, fun idle ready => ?_, fun alarm => served_ring found fit cancelled⟩
  have there : (c.standing ready).session? session.handle = some session := found
  rw [turn, there]
  exact served_stimulate fit cancelled idle

/-- From now on the response of a request is that of a cancelled one. However the coordinator goes
on, its session is there, and whatever it waits for ends it; or it has ended, as a cancelled one. If
cancelled sessions heed that they are, no call has been made in its name before it has ended, and
none is made by any move, the one that ends it included. -/
def Decided (c : Coordinator) (handle : Nat) (id : String) : Prop :=
  ∀ rules later, Leads rules c later →
    (∃ waiting, waiting.handle = handle ∧ waiting.id = id ∧ later.Waits waiting ∧
      (rules.heed → c.Silent later id ∧ ∀ next, Moves rules later next → c.Silent next id)) ∨
    later.session? handle = none ∧ ∃ e, later.end? handle = some e ∧
      e.response.executionId = id ∧ e.response.status = .cancelled ∧
      e.response.success = false ∧ e.response.errorCode = some "ORCA-032"

theorem AtRest.decided (rest : c.AtRest)
    (h : c.Condemned handle id ∨ c.Served handle id) : c.Decided handle id := by
  intro rules later leads
  have restLater := leads.atRest rest
  have settled : later.Condemned handle id ∧ (rules.heed → c.Silent later id) ∨
      later.Served handle id := by
    rcases h with condemned | served
    · exact leads.condemned rest condemned
    · exact .inr (leads.served rest served)
  rcases settled with ⟨still, silent⟩ | served
  · left
    obtain ⟨waiting, same, own, waits⟩ := still.waits restLater
    refine ⟨waiting, same, own, waits, fun heed => ⟨silent heed, fun next move => ?_⟩⟩
    exact (silent heed).trans (move.silent restLater.sound heed still)
  · right
    obtain ⟨gone, e, ended, own, cancelled⟩ := served.end? restLater.sound
    exact ⟨gone, e, ended, own, cancelled.status, cancelled.success, cancelled.errorCode⟩

/-- Whoever waits for the request is given the response of a cancelled one. -/
theorem Decided.join (h : c.Decided handle id) (sound : c.Sound) (steps : Nat) {e : End}
    (joined : (Coordinator.join steps c handle).1 = some e) :
    e.response.executionId = id ∧ e.response.IsCancelled := by
  obtain ⟨later, leads, ended⟩ : ∃ later, Leads .any c later ∧ later.end? handle = some e := by
    refine ⟨(Coordinator.join steps c handle).2, leads_join steps handle sound, ?_⟩
    unfold Coordinator.join at joined ⊢
    split at joined
    · next done before =>
      cases joined
      exact before
    · exact joined
  rcases h .any later leads with ⟨waiting, rfl, -, waits, -⟩ | ⟨-, other, same, own, cancelled⟩
  · rw [waits.no_end] at ended
    cases ended
  · rw [ended] at same
    cases same
    exact ⟨own, cancelled.1, cancelled.2.1, cancelled.2.2⟩

/-! ## Where a cancellation comes from -/

/-- A cancellation is accepted for a session, and has it cancelled at once. -/
theorem condemned_of_cancel (accepted : c.cancel id = (true, later)) :
    ∃ session, c.find? id = some session ∧ later.Condemned session.handle id ∧
      (session.isNapping = true → .session session.handle ∈ later.ready) := by
  unfold Coordinator.cancel at accepted
  split at accepted
  · cases accepted
  · next session found =>
    have member : session ∈ c.sessions := List.mem_of_find?_eq_some found
    have own : session.id = id := by simpa using List.find?_some found
    have condemned : (c.replace (session.cancel c.world.now)).Condemned session.handle id :=
      ⟨session.cancel c.world.now, List.mem_map.2 ⟨session, member, if_pos rfl⟩, rfl, own, rfl⟩
    refine ⟨session, found, ?_⟩
    obtain ⟨-, rfl⟩ := Prod.mk.inj accepted
    split
    · exact ⟨condemned, fun _ => List.mem_append_right _ List.mem_cons_self⟩
    · next calm => exact ⟨condemned, fun napping => absurd napping calm⟩

/-- The sessions that answers have asked to cancel are cancelled. -/
theorem condemned_grantRequests (sound : c.Sound) (member : session ∈ c.sessions)
    (asked : session.id ∈ c.world.requests) :
    c.grantRequests.Condemned session.handle session.id := by
  have each (ids : List String) (c : Coordinator) (sound : c.Sound)
      (there : ∃ other ∈ c.sessions, other.handle = session.handle ∧ other.id = session.id)
      (asked : session.id ∈ ids ∨ c.Condemned session.handle session.id) :
      (ids.foldl (fun c id => (c.cancel id).2) c).Condemned session.handle session.id := by
    induction ids generalizing c with
    | nil => exact asked.resolve_left List.not_mem_nil
    | cons first rest ih =>
      obtain ⟨other, inside, handle, id⟩ := there
      have tended := Tended.cancel sound first
      refine ih _ (tended.sound sound) ?_ ?_
      · obtain ⟨next, kept, same⟩ := tended.exists_session inside
        rw [← handle, ← id]
        exact ⟨next, kept, same⟩
      · rcases asked with asked | condemned
        · refine (List.mem_cons.1 asked).symm.imp_right fun own => ?_
          subst own
          have found : c.find? session.id = some other := id ▸ sound.find?_eq inside
          have accepted : c.cancel session.id = (true, (c.cancel session.id).2) := by
            simp only [Coordinator.cancel, found]
          obtain ⟨other', found', condemned, -⟩ := condemned_of_cancel accepted
          rw [found] at found'
          cases found'
          rw [← handle]
          exact condemned
        · exact .inr (tended.condemned _ _ condemned)
  have cleared : c.Tended { c with world := { c.world with requests := [] } } :=
    .of_eq rfl (fun gated => gated) rfl rfl rfl rfl rfl rfl
  exact each _ _ (cleared.sound sound) ⟨session, member, rfl, rfl⟩ (.inl asked)

/-- Whoever an answer asks to cancel is cancelled when the step is taken over in which it does,
also the session of that step itself. -/
theorem settle_grants (sound : c.Sound) (granted : c.world.requests = [])
    (member : session ∈ c.sessions) {p : World × Move} (goes : session.Goes manner c.world p)
    {other : Session} (inside : other ∈ c.sessions) (asked : other.id ∈ p.1.requests) :
    (c.settle session p).Condemned other.handle other.id ∨
      (c.settle session p).Served other.handle other.id := by
  obtain ⟨world, move⟩ := p
  have added := (goes_adds sound member goes.adds).sound
  have unasked : session.id ∉ c.world.requests := by
    rw [granted]
    exact List.not_mem_nil
  cases move with
  | stays next =>
    left
    cases goes.comes with
    | stays handle id cancelled through _ nextSound =>
      have replaced := tended_replace added member handle id cancelled through nextSound
      obtain ⟨kept, among, same, named⟩ := replaced.exists_session inside
      rw [← same, ← named]
      exact condemned_grantRequests (replaced.sound added) among (named ▸ asked)
  | ends response =>
    cases goes.comes with
    | ends own _ =>
      have condemned := (Tended.release _).condemned _ _
        (condemned_grantRequests added inside asked)
      by_cases same : other.handle = session.handle
      · right
        cases sound.eq_of_handle inside member same
        exact ⟨_, List.mem_append_right _ List.mem_cons_self, rfl, own,
          goes.asked response rfl unasked asked⟩
      · left
        obtain ⟨kept, among, handle, id, cancelled⟩ := condemned
        refine ⟨kept, List.mem_filter.2 ⟨among, decide_eq_true ?_⟩, handle, id, cancelled⟩
        rw [handle]
        exact same

/-- A cancellation that is accepted decides the response, from the moment on at which it is: with
no call in between, and with a turn for a session whose wait it cuts short. So does one that an
answer asks for, or a call that begins, with the step in which it does, whoever it is that it
cancels. -/
theorem cancel_decides (policy : Policy) (executor : Executor) (ids : Nat → String)
    {c : Coordinator} (reached : Leads rules (make policy executor ids) c) :
    (∀ id asked, c.cancel id = (true, asked) → ∃ session, c.find? id = some session ∧
      asked.world = c.world ∧
      (session.isNapping = true → .session session.handle ∈ asked.ready) ∧
      asked.Decided session.handle id) ∧
    ∀ session ∈ c.sessions, ∀ deaf p, c.Steps session deaf p →
      ∀ other ∈ c.sessions, other.id ∈ p.1.requests →
        (c.settle session p).Decided other.handle other.id := by
  have rest : c.AtRest := reached.atRest (atRest_make policy executor ids)
  refine ⟨fun id asked accepted => ?_, fun session member deaf p steps other inside wanted => ?_⟩
  · have cancelled : asked = (c.cancel id).2 := by rw [accepted]
    have move : Moves rules c (c.cancel id).2 := .cancel c id
    have restAsked : asked.AtRest := cancelled ▸ move.atRest rest
    obtain ⟨session, found, condemned, woken⟩ := condemned_of_cancel accepted
    exact ⟨session, found, cancelled ▸ world_cancel c id, woken,
      restAsked.decided (.inl condemned)⟩
  · have goes := steps.goes_deaf (rest.sound.sessions session member)
    have went := goes_settle rest.sound member goes
    obtain ⟨arrivals, handles⟩ := line_settle rest.sound member goes
    have after : (c.settle session p).AtRest :=
      ⟨went.sound, requests_settle c session p, lined_settle (rest.lined.weaken _) goes.comes,
        rest.complete.goes went arrivals handles⟩
    exact after.decided (settle_grants rest.sound rest.granted member goes inside wanted)

/-- Answers after some milliseconds. -/
def patient : Executor := fun _ _ => ⟨5, [], .ok .null, []⟩

/-- A request for a single task. -/
def errand : Request :=
  { Request.make "errand" [.obj [("task", .str "fetch")]] with executionId := some "run" }

/-- Its task is the whole tree. -/
def fetch : Node := .make "fetch" (.task ⟨"fetch", [], [], 0, none, none⟩) []

theorem parse_errand : Step.parse errand.steps = .ok fetch := by cbv

theorem isValid_fetch : (Checker.validate ⟨Policy.standard.limits, Policy.standard.catalog⟩
    fetch).isValid = true := by cbv

/-- The request runs, and its task has not yet been answered. -/
def busy : Coordinator := (spawn 1 (make .standard patient) errand).2

theorem reached_busy : Leads .any (make .standard patient) busy :=
  leads_spawn 1 errand (sound_make ..)

/-- The request has a session, and an answer of its task may ask to cancel it. -/
theorem exists_session_busy : ∃ session ∈ busy.sessions, busy.find? "run" = some session ∧
    ∃ p, busy.Steps session false p ∧ session.id ∈ p.1.requests := by
  let entered : Session := newcomer (make .standard patient) 0 "run" errand .admitted
  have parsed : Step.parse entered.request.steps = .ok fetch := parse_errand
  have mode : entered.request.mode = .execute := rfl
  have settled : busy = Coordinator.settle
      { (make .standard patient).received with sessions := [entered], free := 9 } entered
      (entered.proceed ⟨patient, .standard⟩ .standard .empty) := rfl
  unfold Session.proceed at settled
  rw [if_neg (by decide)] at settled
  simp only [parsed, isValid_fetch, mode] at settled
  rw [if_neg (by decide), if_neg (by decide)] at settled
  rw [settled]
  refine ⟨_, List.mem_cons_self, rfl, _, .goOn rfl (.act [.cancelWorkflow "run"]), ?_⟩
  exact List.mem_cons_self

/-- The request is cancelled while its task has not been answered, from outside or by an answer. -/
theorem cancel_decides_busy : Leads .any (make .standard patient) busy ∧
    (∃ asked session, busy.cancel "run" = (true, asked) ∧ busy.find? "run" = some session ∧
      asked.Decided session.handle "run") ∧
    ∃ session ∈ busy.sessions, ∃ p, busy.Steps session false p ∧ session.id ∈ p.1.requests ∧
      (busy.settle session p).Decided session.handle session.id := by
  obtain ⟨session, member, found, p, steps, asked⟩ := exists_session_busy
  have accepted : busy.cancel "run" = (true, (busy.cancel "run").2) := by
    simp only [Coordinator.cancel, found]
  obtain ⟨outside, inside⟩ := cancel_decides .standard patient numberedId reached_busy
  obtain ⟨other, same, -, -, decided⟩ := outside "run" _ accepted
  exact ⟨reached_busy, ⟨_, other, accepted, same, decided⟩, session, member, p, steps, asked,
    inside session member false p steps session member asked⟩

end Coordinator

end Stepwise
