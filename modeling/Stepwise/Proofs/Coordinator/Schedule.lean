import Stepwise.Proofs.Coordinator.Registry
import Stepwise.Proofs.Run.Undisturbed

/-!
# Schedules of coordinators

`Moves` leaves open who goes on next: any request that stands in line, any session, at any time
and for anything that may come to it; requests arrive and sessions are cancelled in between. Rules
may narrow this down: that whoever is cancelled heeds it, or that everything goes by the clock.
Every move keeps the records sound and cancelled sessions in order (`Moves.goes`), and what the
operations of a coordinator do are moves by any rules (`operates`). So what is shown of moves holds
of every interleaving, and of what the operations do in particular.
-/

namespace Stepwise

/-- What the schedules of a coordinator keep to: a cancelled session does not meet the end of a
delay before it notices that it is cancelled, or everything goes by the clock. -/
structure Rules where
  heed : Prop
  clock : Prop

/-- Anything may happen. -/
def Rules.any : Rules := ⟨False, False⟩

/-- Everything goes by the clock. -/
def Rules.timely : Rules := ⟨False, True⟩

namespace Coordinator

/-- A request has been given a handle. -/
def received (c : Coordinator) : Coordinator := { c with handles := c.handles + 1 }

/-- A request has been given a handle and stands in line. -/
def lined (c : Coordinator) (request : Request) : Coordinator :=
  { c.received with ready := c.ready ++ [.arrival c.handles request] }

/-- Time has passed. -/
def asOf (c : Coordinator) (time : Nat) : Coordinator :=
  { c with world := c.world.advancedTo time }

/-- Somebody who stood in line has left it. -/
def standing (c : Coordinator) (ready : List Ready) : Coordinator := { c with ready := ready }

/-- By the clock nobody acts on the run of a session, and a session that pauses goes on when its
pause is over or when it has its turn. -/
structure Timely (c : Coordinator) (session : Session) (stimulus : Run.Stimulus) : Prop where
  idle : stimulus.Idle
  rested : ∀ plan ticket due, session.phase = .pausing plan ticket due →
    stimulus = .heed ∨ due ≤ c.world.now

/-- No pause is over before this time. -/
def Early (c : Coordinator) (time : Nat) : Prop :=
  ∀ session ∈ c.sessions, ∀ plan ticket due, session.phase = .pausing plan ticket due → time ≤ due

/-- One step of a coordinator. -/
inductive Moves (rules : Rules) : Coordinator → Coordinator → Prop
  /-- A request arrives and begins at once. -/
  | arrive (c : Coordinator) (request : Request) :
      Moves rules c (c.received.accept c.handles request)
  /-- A request arrives and stands in line. -/
  | line (c : Coordinator) (request : Request) : Moves rules c (c.lined request)
  /-- Somebody who stands in line has a turn. -/
  | turn {c : Coordinator} {before after : List Ready} {next : Ready}
      (line : c.ready = before ++ next :: after) :
      Moves rules c ((c.standing (before ++ after)).turn next)
  /-- Something comes to a session. -/
  | stimulate {c : Coordinator} {session : Session} (member : session ∈ c.sessions)
      {stimulus : Run.Stimulus}
      (heard : rules.heed → session.cancelled = true → stimulus.isDeaf = false)
      (timely : rules.clock → c.Timely session stimulus) :
      Moves rules c (c.stimulate session stimulus)
  | cancel (c : Coordinator) (id : String) : Moves rules c (c.cancel id).2
  | register {c later : Coordinator} {id : String} {callback : Callback}
      (registered : c.register id callback = .ok later) : Moves rules c later
  | pass {c : Coordinator} {time : Nat} (early : rules.clock → c.Early time) :
      Moves rules c (c.asOf time)

/-- Some steps of a coordinator. -/
abbrev Leads (rules : Rules) : Coordinator → Coordinator → Prop :=
  Relation.ReflTransGen (Moves rules)

variable {rules : Rules} {manner : Manner} {c later : Coordinator} {session : Session}
  {handle : Nat}

/-! ## Moves -/

theorem goes_refl (sound : c.Sound) : Goes manner c c := .of_tended (.refl c) sound

theorem goes_proceed (sound : c.Sound) (member : session ∈ c.sessions) :
    Goes manner c (c.proceed session) :=
  goes_settle sound member (Session.goes_proceed c.world session)

/-- A session before anything was done for it. -/
def newcomer (c : Coordinator) (handle : Nat) (id : String) (request : Request)
    (phase : SessionPhase) : Session :=
  ⟨handle, id, request, c.world.now, false, .pending, 0, 0, none, phase⟩

/-- The id under which a request is taken. -/
def nameFor (c : Coordinator) (handle : Nat) (request : Request) : String :=
  match request.executionId with
  | some id => if id.isEmpty then c.ids handle else id
  | none => c.ids handle

/-- A request ends at once, or becomes a session. -/
theorem accept_eq (c : Coordinator) (handle : Nat) (request : Request) :
    c.accept handle request =
      if c.policy.maxConcurrent = 0 then
        c.finish handle request.workflowId (.failure (c.nameFor handle request) .failed
          (.concurrency "max_concurrent_workflows is 0") .zero)
      else if (c.find? (c.nameFor handle request)).isSome then
        c.addEnd handle (.failure (c.nameFor handle request) .failed (.concurrency
          ("execution '" ++ c.nameFor handle request ++ "' is already active")) .zero)
      else if c.free = 0 then
        { c with
          sessions := c.sessions ++ [c.newcomer handle (c.nameFor handle request) request .queued]
          queue := c.queue ++ [handle] }
      else
        { c with
          sessions :=
            c.sessions ++ [c.newcomer handle (c.nameFor handle request) request .admitted]
          free := c.free - 1 : Coordinator }.proceed
            (c.newcomer handle (c.nameFor handle request) request .admitted) := rfl

/-- An id that no session is found by belongs to none. -/
theorem ne_of_find?_none {id : String} (unknown : ¬(c.find? id).isSome = true) (session : Session)
    (member : session ∈ c.sessions) : session.id ≠ id := by
  intro same
  exact unknown (List.find?_isSome.2 ⟨session, member, decide_eq_true same⟩)

/-- A request of a new handle ends without a session. -/
theorem goes_refuse (sound : c.Sound) (fresh : handle ∉ c.numbers) (given : handle < c.handles)
    {time : Nat} {response : Response} (same : later.sessions = c.sessions)
    (queue : later.queue = c.queue) (arrivals : later.arrivals = c.arrivals)
    (ends : later.ends = c.ends ++ [⟨handle, time, response⟩]) (issued : later.handles = c.handles)
    (calls : later.world.calls = c.world.calls) (tickets : later.world.tickets = c.world.tickets)
    (openings : later.world.openings = c.world.openings) : Goes manner c later := by
  have unknown (id : String) : ¬c.Condemned handle id := by
    rintro ⟨session, member, rfl, -⟩
    exact fresh (List.mem_append_left _ (List.mem_append_left _ (List.mem_map_of_mem member)))
  have sessions : c.sessions = c.sessions.filter fun s => s.handle ≠ handle := by
    refine (List.filter_eq_self.2 fun s member => decide_eq_true ?_).symm
    rintro rfl
    exact fresh (List.mem_append_left _ (List.mem_append_left _ (List.mem_map_of_mem member)))
  have apart : handle ∉ c.arrivals ++ c.ends.map End.handle := by
    rw [numbers, List.append_assoc] at fresh
    exact fun member => fresh (List.mem_append_right _ member)
  exact goes_retire (goes_refl sound) (fun _ _ h => h) (same.trans sessions) queue arrivals ends
    issued calls tickets openings given apart fun id condemned => absurd condemned (unknown id)

/-- A request of a new handle and a new id waits at the gate. -/
theorem goes_queue (sound : c.Sound) (fresh : handle ∉ c.numbers) (given : handle < c.handles)
    {id : String} (other : ∀ session ∈ c.sessions, session.id ≠ id) (request : Request) :
    Goes manner c { c with
      sessions := c.sessions ++ [c.newcomer handle id request .queued]
      queue := c.queue ++ [handle] } := by
  have new : (c.newcomer handle id request .queued).Sound c.world := trivial
  exact goes_admit sound rfl rfl rfl rfl rfl fresh given other (List.subset_append_left _ _)
    (fun _ => List.mem_append_right _ List.mem_cons_self) new

/-- A request of a new handle and a new id is let through. -/
theorem goes_enter (sound : c.Sound) (fresh : handle ∉ c.numbers) (given : handle < c.handles)
    {id : String} (other : ∀ session ∈ c.sessions, session.id ≠ id) (request : Request) :
    Goes manner c { c with
      sessions := c.sessions ++ [c.newcomer handle id request .admitted]
      free := c.free - 1 } := by
  have new : (c.newcomer handle id request .admitted).Sound c.world := trivial
  exact goes_admit sound rfl rfl rfl rfl rfl fresh given other (List.Subset.refl _)
    (fun queued => by cases queued) new

/-- A request of a new handle is taken, or refused. -/
theorem goes_accept (sound : c.Sound) (fresh : handle ∉ c.numbers) (given : handle < c.handles)
    (request : Request) : Goes manner c (c.accept handle request) := by
  rw [accept_eq c handle request]
  generalize c.nameFor handle request = id
  split
  · exact goes_refuse sound fresh given rfl rfl rfl rfl rfl rfl rfl rfl
  · split
    · exact goes_refuse sound fresh given rfl rfl rfl rfl rfl rfl rfl rfl
    · next inactive =>
      have other := ne_of_find?_none inactive
      split
      · exact goes_queue sound fresh given other request
      · -- The session is let through at once, with its first step.
        have through : Goes manner c _ := goes_enter sound fresh given other request
        refine through.after rfl (fun handle id condemned => ?_)
          (goes_proceed through.sound (List.mem_append_right _ List.mem_cons_self))
        obtain ⟨session, member, rest⟩ := condemned
        exact ⟨session, List.mem_append_left _ member, rest⟩

/-- What a session of a coordinator may come to next: it is checked and begins, goes on with its
run, or ends its pause; and whether it is deaf to a cancellation in this step. -/
inductive Steps (c : Coordinator) (session : Session) : Bool → World × Move → Prop
  | begin (phase : session.phase = .admitted) (deaf : Bool) :
      Steps c session deaf (session.proceed c.engine c.policy c.world)
  | goOn {plan : Plan} {activity : Activity} {limit : Option Run.TimeLimit}
      (phase : session.phase = .executing plan activity limit) (stimulus : Run.Stimulus) :
      Steps c session stimulus.isDeaf
        (session.goOn c.engine c.policy plan activity limit c.world stimulus)
  | rest {plan : Plan} {ticket due : Nat} (phase : session.phase = .pausing plan ticket due)
      (deaf : Bool) : Steps c session deaf (session.rested c.engine c.policy plan deaf c.world)

theorem Steps.phase_ne {deaf : Bool} {p : World × Move} (steps : c.Steps session deaf p) :
    session.phase ≠ .queued := by
  cases steps with
  | begin phase | goOn phase | rest phase =>
    rw [phase]
    exact nofun

theorem Steps.goes {deaf : Bool} {p : World × Move} (steps : c.Steps session deaf p)
    (sound : session.Sound c.world)
    (heard : manner ≠ .deaf → session.cancelled = true → deaf = false) :
    session.Goes manner c.world p := by
  unfold Session.Sound at sound
  cases steps with
  | begin => exact Session.goes_proceed c.world session
  | goOn phase stimulus =>
    simp only [phase] at sound
    obtain ⟨context, runs⟩ := sound
    exact Session.goes_goOn runs heard
  | rest phase =>
    simp only [phase] at sound
    exact Session.goes_rested sound deaf c.world session

/-- Nothing is asked of a session that may be deaf. -/
theorem Steps.goes_deaf {deaf : Bool} {p : World × Move} (steps : c.Steps session deaf p)
    (sound : session.Sound c.world) : session.Goes .deaf c.world p :=
  steps.goes sound fun hearing => absurd rfl hearing

/-- Whatever comes to a session, it takes a step, or nothing happens because it has to wait. -/
theorem stimulate_cases (c : Coordinator) (session : Session) (stimulus : Run.Stimulus) :
    session.phase ≠ .admitted ∧ c.stimulate session stimulus = c ∨
      ∃ p, c.Steps session stimulus.isDeaf p ∧ c.stimulate session stimulus = c.settle session p := by
  unfold stimulate
  split
  · next phase => exact .inl ⟨phase ▸ nofun, rfl⟩
  · next phase => exact .inr ⟨_, .begin phase _, rfl⟩
  · next phase => exact .inr ⟨_, .goOn phase stimulus, rfl⟩
  · next phase =>
    split
    · exact .inl ⟨phase ▸ nofun, rfl⟩
    · exact .inl ⟨phase ▸ nofun, rfl⟩
    · exact .inr ⟨_, .rest phase _, rfl⟩

/-- A session goes on with anything that may come to it. -/
theorem goes_stimulate (sound : c.Sound) (member : session ∈ c.sessions) {stimulus : Run.Stimulus}
    (heard : manner ≠ .deaf → session.cancelled = true → stimulus.isDeaf = false) :
    Goes manner c (c.stimulate session stimulus) := by
  rcases c.stimulate_cases session stimulus with ⟨-, same⟩ | ⟨p, steps, same⟩
  · rw [same]
    exact goes_refl sound
  · rw [same]
    exact goes_settle sound member (steps.goes (sound.sessions session member) heard)

/-- Somebody leaves the line. -/
theorem goes_standing {before after : List Ready} {next : Ready} (sound : c.Sound)
    (line : c.ready = before ++ next :: after) : Goes manner c (c.standing (before ++ after)) := by
  have numbers : (c.standing (before ++ after)).numbers.Sublist c.numbers := by
    refine List.Sublist.append_right (List.Sublist.append_left ?_ _) _
    rw [Coordinator.arrivals, Coordinator.arrivals, line]
    exact ((List.sublist_cons_self next after).append_left before).filterMap _
  exact goes_of_arrivals sound rfl rfl rfl rfl (sound.distinct.sublist numbers)
    fun handle member => sound.given handle (numbers.subset member)

/-- Without a request in line its handle is a new one. -/
theorem fresh_of_line {before after : List Ready} {request : Request} (sound : c.Sound)
    (line : c.ready = before ++ .arrival handle request :: after) :
    handle ∉ (c.standing (before ++ after)).numbers ∧
      handle < (c.standing (before ++ after)).handles := by
  have once : c.numbers.Perm (handle :: (c.standing (before ++ after)).numbers) := by
    rw [Coordinator.numbers, Coordinator.numbers, Coordinator.arrivals, Coordinator.arrivals,
      line, standing, List.filterMap_append, List.filterMap_append]
    simp only [List.append_assoc]
    exact (List.perm_middle.append_left _).trans List.perm_middle
  exact ⟨(List.nodup_cons.1 (once.nodup_iff.1 sound.distinct)).1,
    sound.given handle (once.symm.subset List.mem_cons_self)⟩

theorem goes_turn {before after : List Ready} {next : Ready} (sound : c.Sound)
    (line : c.ready = before ++ next :: after) :
    Goes manner c ((c.standing (before ++ after)).turn next) := by
  have left : Goes manner c (c.standing (before ++ after)) := goes_standing sound line
  refine left.after rfl (fun _ _ condemned => condemned) ?_
  cases next with
  | session handle =>
    rw [turn]
    split
    · next session found =>
      exact goes_stimulate left.sound (List.mem_of_find?_eq_some found) fun _ _ => rfl
    · exact goes_refl left.sound
  | arrival handle request =>
    obtain ⟨fresh, given⟩ := fresh_of_line sound line
    exact goes_accept left.sound fresh given request

theorem goes_received (sound : c.Sound) : Goes manner c c.received :=
  goes_of_arrivals sound rfl rfl rfl rfl sound.distinct fun handle member =>
    Nat.lt_succ_of_lt (sound.given handle member)

theorem handles_notMem (sound : c.Sound) : c.handles ∉ c.numbers := fun member =>
  Nat.lt_irrefl _ (sound.given _ member)

theorem goes_lined (sound : c.Sound) (request : Request) : Goes manner c (c.lined request) := by
  have arrivals : (c.lined request).arrivals = c.arrivals ++ [c.handles] := by
    simp [lined, Coordinator.arrivals, Ready.arrival?]
  have numbers : (c.lined request).numbers.Perm (c.handles :: c.numbers) := by
    rw [Coordinator.numbers, Coordinator.numbers, arrivals]
    simp only [List.append_assoc, List.singleton_append]
    exact (List.perm_middle.append_left _).trans List.perm_middle
  refine goes_of_arrivals sound rfl rfl rfl rfl ?_ fun handle member => ?_
  · exact numbers.nodup_iff.2 (List.nodup_cons.2 ⟨handles_notMem sound, sound.distinct⟩)
  · rcases List.mem_cons.1 (numbers.subset member) with rfl | member
    · exact Nat.lt_succ_self _
    · exact Nat.lt_succ_of_lt (sound.given handle member)

/-- A callback that is registered waits behind those of its execution. -/
theorem register_ok {id : String} {callback : Callback}
    (added : c.register id callback = .ok later) :
    later = { c with
      callbacks := c.callbacks.insert id ((c.callbacks.find? id).getD [] ++ [callback]) } := by
  unfold Coordinator.register at added
  split at added
  · cases added
  · cases added
    rfl

/-- Every move keeps the records sound, and cancelled sessions in order. -/
theorem Moves.goes (move : Moves rules c later) (sound : c.Sound)
    (hearing : manner ≠ .deaf → rules.heed) : Goes manner c later := by
  cases move with
  | arrive request =>
    have received : Goes manner c c.received := goes_received sound
    have fresh : c.handles ∉ c.numbers := handles_notMem sound
    have given : c.handles < c.received.handles := Nat.lt_succ_self _
    exact received.after rfl (fun _ _ condemned => condemned)
      (goes_accept received.sound fresh given request)
  | line request => exact goes_lined sound request
  | turn line => exact goes_turn sound line
  | stimulate member heard =>
    exact goes_stimulate sound member fun live => heard (hearing live)
  | cancel id => exact .of_tended (.cancel sound id) sound
  | register added =>
    cases register_ok added
    exact .of_tended (.of_eq rfl id rfl rfl rfl rfl rfl rfl) sound
  | pass => exact .of_tended (.of_eq rfl id rfl rfl rfl rfl rfl rfl) sound

theorem sound_make (policy : Policy) (executor : Executor) (ids : Nat → String) :
    (make policy executor ids).Sound := by
  have numbers : (make policy executor ids).numbers = [] := rfl
  refine ⟨?_, ?_, List.nodup_nil, fun _ member => absurd member List.not_mem_nil,
    fun _ member => absurd member List.not_mem_nil, rfl⟩
  · rw [numbers]
    exact List.nodup_nil
  · rw [numbers]
    exact fun _ member => absurd member List.not_mem_nil

theorem Moves.sound (move : Moves rules c later) (sound : c.Sound) : later.Sound :=
  Goes.sound (move.goes sound fun hearing => absurd (rfl : Manner.deaf = .deaf) hearing)

theorem Leads.sound (leads : Leads rules c later) (sound : c.Sound) : later.Sound := by
  induction leads with
  | refl => exact sound
  | tail _ move ih => exact move.sound ih

/-! ## Alarms -/

theorem handle_of_alarm {now : Nat} {alarm : Alarm} (rings : alarm? now session = some alarm) :
    alarm.handle = session.handle := by
  unfold alarm? at rings
  split at rings
  · obtain ⟨_, _, rfl⟩ := Option.map_eq_some_iff.1 rings
    rfl
  · cases rings
    rfl
  · cases rings
  · cases rings

/-- What comes by the clock is nobody's act, and nobody is deaf to it. -/
theorem steady_of_alarm {now : Nat} {alarm : Alarm} (rings : alarm? now session = some alarm) :
    alarm.stimulus.Idle ∧ alarm.stimulus.isDeaf = false := by
  unfold alarm? at rings
  split at rings
  · obtain ⟨⟨due, stimulus⟩, next, rfl⟩ := Option.map_eq_some_iff.1 rings
    cases Run.comes_of_next? next with
    | past | turn | heed | wait | expire => exact ⟨nofun, rfl⟩
  · cases rings
    exact ⟨nofun, rfl⟩
  · cases rings
  · cases rings

theorem alarm?_of_pausing {plan : Plan} {ticket due : Nat}
    (phase : session.phase = .pausing plan ticket due) (now : Nat) :
    alarm? now session = some ⟨due, session.handle, .wake ⟨ticket, false⟩⟩ := by
  rw [alarm?, phase]

/-- The one that is kept when the earlier of two is kept each time is among them, and none of them
is earlier. -/
theorem earliest_foldl (first : Alarm) (rest : List Alarm) :
    rest.foldl (fun best a => if a.due < best.due then a else best) first ∈ first :: rest ∧
      ∀ other ∈ first :: rest,
        (rest.foldl (fun best a => if a.due < best.due then a else best) first).due ≤ other.due := by
  induction rest generalizing first with
  | nil =>
    refine ⟨List.mem_cons_self, fun other member => ?_⟩
    cases List.mem_singleton.1 member
    exact Nat.le_refl _
  | cons second rest ih =>
    rw [List.foldl_cons]
    split
    · next earlier =>
      obtain ⟨member, early⟩ := ih second
      refine ⟨List.mem_cons_of_mem _ member, fun other inside => ?_⟩
      rcases List.mem_cons.1 inside with rfl | inside
      · exact Nat.le_trans (early second List.mem_cons_self) (Nat.le_of_lt earlier)
      · exact early other inside
    · next later =>
      obtain ⟨member, early⟩ := ih first
      refine ⟨?_, fun other inside => ?_⟩
      · rcases List.mem_cons.1 member with same | member
        · rw [same]
          exact List.mem_cons_self
        · exact List.mem_cons_of_mem _ (List.mem_cons_of_mem _ member)
      · rcases List.mem_cons.1 inside with rfl | inside
        · exact early other List.mem_cons_self
        · rcases List.mem_cons.1 inside with rfl | inside
          · exact Nat.le_trans (early first List.mem_cons_self) (Nat.le_of_not_lt later)
          · exact early other (List.mem_cons_of_mem _ inside)

/-- The next alarm is that of a session, and no other comes before it. -/
theorem nextAlarm?_eq_some {alarm : Alarm} (next : c.nextAlarm? = some alarm) :
    (∃ session ∈ c.sessions, alarm? c.world.now session = some alarm) ∧
      ∀ session ∈ c.sessions, ∀ other, alarm? c.world.now session = some other →
        alarm.due ≤ other.due := by
  unfold nextAlarm? at next
  split at next
  · cases next
  · next first rest alarms =>
    obtain ⟨member, early⟩ := earliest_foldl first rest
    rw [Option.some.inj next, ← alarms] at member early
    obtain ⟨session, inside, rings⟩ := List.mem_filterMap.1 member
    exact ⟨⟨session, inside, rings⟩, fun session inside other rings =>
      early other (List.mem_filterMap.2 ⟨session, inside, rings⟩)⟩

/-- Without a next alarm no session has one. -/
theorem nextAlarm?_eq_none (none : c.nextAlarm? = none) (member : session ∈ c.sessions) :
    alarm? c.world.now session = Option.none := by
  refine Option.eq_none_iff_forall_ne_some.2 fun alarm rings => ?_
  have among := List.mem_filterMap.2 ⟨session, member, rings⟩
  unfold nextAlarm? at none
  split at none
  · next empty =>
    rw [empty] at among
    cases among
  · cases none

/-- No time passes beyond the next alarm. -/
theorem early_of_nextAlarm? {time : Nat}
    (first : ∀ alarm, c.nextAlarm? = some alarm → time ≤ alarm.due) : c.Early time := by
  intro session member plan ticket due phase
  have rings := alarm?_of_pausing phase c.world.now
  cases next : c.nextAlarm? with
  | some alarm =>
    exact Nat.le_trans (first alarm next) ((nextAlarm?_eq_some next).2 session member _ rings)
  | none =>
    rw [nextAlarm?_eq_none next member] at rings
    cases rings

/-- When an alarm rings, what it brings comes to its session. -/
theorem ring_eq {alarm : Alarm} (found : c.session? alarm.handle = some session) :
    c.ring alarm = (c.asOf alarm.due).stimulate session alarm.stimulus := by
  have there : (c.asOf alarm.due).session? alarm.handle = some session := found
  rw [asOf] at there ⊢
  simp only [ring, there]

/-! ## Operations -/

theorem moves_takeTurn (taken : c.takeTurn? = some later) : Moves rules c later := by
  unfold takeTurn? at taken
  split at taken
  · cases taken
  · next first rest line =>
    cases taken
    exact @Moves.turn rules c [] rest first line

theorem leads_ring (sound : c.Sound) {alarm : Alarm} (next : c.nextAlarm? = some alarm) :
    Leads rules c (c.ring alarm) := by
  obtain ⟨⟨session, member, rings⟩, -⟩ := nextAlarm?_eq_some next
  have found : c.session? alarm.handle = some session :=
    handle_of_alarm rings ▸ sound.session?_eq member
  obtain ⟨idle, heard⟩ := steady_of_alarm rings
  have passed : Leads rules c (c.asOf alarm.due) := .single (.pass fun _ =>
    early_of_nextAlarm? fun other same => by
      rw [next] at same
      cases same
      exact Nat.le_refl _)
  have inside : session ∈ (c.asOf alarm.due).sessions := member
  rw [ring_eq found]
  refine passed.tail (.stimulate inside (fun _ _ => heard) fun _ => ⟨idle, ?_⟩)
  intro plan ticket due phase
  rw [alarm?_of_pausing phase] at rings
  cases rings
  exact .inr (Nat.le_max_right _ _)

theorem leads_pressing (sound : c.Sound) {alarm : Alarm} (next : c.pressing? = some alarm) :
    Leads rules c (c.ring alarm) := leads_ring sound (Option.filter_eq_some_iff.1 next).1

theorem leads_goOn? (sound : c.Sound) (goes : c.goOn? = some later) : Leads rules c later := by
  unfold goOn? at goes
  split at goes
  · next alarm pressing =>
    cases goes
    exact leads_pressing sound pressing
  · exact .single (moves_takeTurn goes)

theorem leads_drain (steps turns : Nat) (sound : c.Sound) :
    Leads rules c (drain steps turns c) := by
  induction steps generalizing turns c with
  | zero => exact .refl
  | succ steps ih =>
    have first {next : Coordinator} (leads : Leads rules c next) (turns : Nat) :
        Leads rules c (drain steps turns next) := leads.trans (ih turns (leads.sound sound))
    rw [drain.eq_def]
    dsimp only
    split
    · next alarm pressing => exact first (leads_pressing sound pressing) turns
    · split
      · next taken => exact first (.single (moves_takeTurn taken)) _
      · exact .refl

theorem leads_await (handle steps : Nat) (sound : c.Sound) :
    Leads rules c (await handle steps c) := by
  induction steps generalizing c with
  | zero => exact .refl
  | succ steps ih =>
    have first {next : Coordinator} (leads : Leads rules c next) :
        Leads rules c (await handle steps next) := leads.trans (ih (leads.sound sound))
    rw [await]
    split
    · exact .refl
    · split
      · next next goes => exact first (leads_goOn? sound goes)
      · split
        · next alarm next => exact first (leads_ring sound next)
        · exact .refl

theorem leads_sleepUntil (time steps : Nat) (sound : c.Sound) :
    Leads rules c (sleepUntil time steps c) := by
  induction steps generalizing c with
  | zero => exact .refl
  | succ steps ih =>
    have first {next : Coordinator} (leads : Leads rules c next) :
        Leads rules c (sleepUntil time steps next) := leads.trans (ih (leads.sound sound))
    rw [sleepUntil]
    split
    · next next goes => exact first (leads_goOn? sound goes)
    · split
      · next alarm next =>
        split
        · exact first (leads_ring sound next)
        · next late =>
          refine .single (.pass fun _ => early_of_nextAlarm? fun other same => ?_)
          rw [next] at same
          cases same
          exact Nat.le_of_not_le late
      · next none =>
        refine .single (.pass fun _ => early_of_nextAlarm? fun other same => ?_)
        rw [none] at same
        cases same

theorem leads_sleep (steps millis : Nat) (sound : c.Sound) :
    Leads rules c (sleep steps c millis) := by
  unfold sleep
  split
  · exact .refl
  · exact leads_sleepUntil _ steps sound

theorem leads_spawn (steps : Nat) (request : Request) (sound : c.Sound) :
    Leads rules c (spawn steps c request).2 := by
  have lined : Moves rules c (c.lined request) := .line c request
  exact (leads_drain steps steps (lined.sound sound)).head lined

theorem leads_call (steps : Nat) (request : Request) (sound : c.Sound) :
    Leads rules c (call steps c request).2 := by
  have arrived : Moves rules c (c.received.accept c.handles request) := .arrive c request
  exact (leads_await _ steps (arrived.sound sound)).head arrived

theorem leads_join (steps handle : Nat) (sound : c.Sound) :
    Leads rules c (join steps c handle).2 := by
  unfold join
  split
  · exact .refl
  · have awaited : Leads rules c (await handle steps c) := leads_await handle steps sound
    exact awaited.trans (leads_drain _ _ (awaited.sound sound))

/-- What is done with a coordinator are moves by the rules. -/
structure Operates (rules : Rules) (c : Coordinator) : Prop where
  call : ∀ steps request, Leads rules c (call steps c request).2
  spawn : ∀ steps request, Leads rules c (spawn steps c request).2
  join : ∀ steps handle, Leads rules c (join steps c handle).2
  sleep : ∀ steps millis, Leads rules c (sleep steps c millis)
  cancel : ∀ id, Leads rules c (c.cancel id).2
  register : ∀ id callback later, c.register id callback = .ok later → Leads rules c later

/-- Whatever the rules are, the operations of a coordinator keep to them. -/
theorem operates (sound : c.Sound) : c.Operates rules where
  call steps request := leads_call steps request sound
  spawn steps request := leads_spawn steps request sound
  join steps handle := leads_join steps handle sound
  sleep steps millis := leads_sleep steps millis sound
  cancel id := .single (.cancel c id)
  register _ _ _ added := .single (.register added)

end Coordinator

end Stepwise
