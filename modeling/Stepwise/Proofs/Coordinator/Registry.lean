import Stepwise.Coordinator.Machine
import Stepwise.Proofs.Coordinator.Session

/-!
# Registries

The sessions of a coordinator, the requests that stand in line and the ends have pairwise distinct
handles, no two sessions have the same id, and every session is sound (`Sound`). Most of what a
coordinator does only tends its sessions: they stay in their places, and none that is cancelled is
taken back (`Tended`). Otherwise one session goes on, one ends, or one is new. All of this keeps a
cancelled session until it has its end, as a cancelled one, and lets it make no call unless it is
deaf to its cancellation: `Goes`.
-/

namespace Stepwise

/-- The handle of a request that stands in line. -/
def Ready.arrival? : Ready → Option Nat
  | .arrival handle _ => some handle
  | .session _ => none

/-- What has a key of its own is found by it. -/
theorem find?_of_nodup {α κ : Type} [DecidableEq κ] {key : α → κ} {entries : List α}
    (distinct : (entries.map key).Nodup) {entry : α} (member : entry ∈ entries) :
    entries.find? (fun other => key other = key entry) = some entry := by
  cases found : entries.find? fun other => key other = key entry with
  | none => exact absurd (decide_eq_true rfl) (List.find?_eq_none.1 found entry member)
  | some other =>
    have same : key other = key entry := by simpa using List.find?_some found
    rw [List.inj_on_of_nodup_map distinct (List.mem_of_find?_eq_some found) member same]

/-- What a session is found by. -/
def Session.name (session : Session) : Nat × String := (session.handle, session.id)

namespace Coordinator

/-- The requests that stand in line. -/
def arrivals (c : Coordinator) : List Nat := c.ready.filterMap Ready.arrival?

/-- The handles of sessions, of requests that stand in line, and of ends. -/
def numbers (c : Coordinator) : List Nat :=
  c.sessions.map Session.handle ++ c.arrivals ++ c.ends.map End.handle

/-- The handles of sessions and of ends. -/
def taken (c : Coordinator) : List Nat :=
  c.sessions.map Session.handle ++ c.ends.map End.handle

/-- Every session that waits at the gate has a place in its queue. -/
def Gated (c : Coordinator) : Prop :=
  ∀ session ∈ c.sessions, session.phase = .queued → session.handle ∈ c.queue

/-- A coordinator whose records agree. -/
structure Sound (c : Coordinator) : Prop where
  distinct : c.numbers.Nodup
  given : ∀ handle ∈ c.numbers, handle < c.handles
  ids : (c.sessions.map Session.id).Nodup
  gated : c.Gated
  sessions : ∀ session ∈ c.sessions, session.Sound c.world
  settled : c.world.openings = []

/-- The session of a handle and an id is cancelled and has not ended. -/
def Condemned (c : Coordinator) (handle : Nat) (id : String) : Prop :=
  ∃ session ∈ c.sessions, session.handle = handle ∧ session.id = id ∧ session.cancelled = true

/-- The request of a handle has ended as a cancelled one of an id. -/
def Served (c : Coordinator) (handle : Nat) (id : String) : Prop :=
  ∃ e ∈ c.ends, e.handle = handle ∧ e.response.executionId = id ∧ e.response.IsCancelled

/-- All sessions stay in their places and sound, and those cancelled stay so. -/
structure Tended (c later : Coordinator) : Prop where
  names : later.sessions.map Session.name = c.sessions.map Session.name
  arrivals : later.arrivals = c.arrivals
  ends : later.ends = c.ends
  issued : later.handles = c.handles
  calls : later.world.calls = c.world.calls
  openings : later.world.openings = c.world.openings
  condemned : ∀ handle id, c.Condemned handle id → later.Condemned handle id
  gated : c.Gated → later.Gated
  sessions : (∀ session ∈ c.sessions, session.Sound c.world) →
    ∀ session ∈ later.sessions, session.Sound later.world

/-- A coordinator goes on. Whoever has a session keeps it until it has its end. What is cancelled
ends as such, and does so without making calls unless it is deaf. -/
structure Goes (manner : Manner) (c later : Coordinator) : Prop where
  sound : later.Sound
  kept : c.taken ⊆ later.taken
  calls : ∃ made, later.world.calls = c.world.calls ++ made ∧
    (manner ≠ .deaf →
      ∀ handle id, c.Condemned handle id → ∀ entry ∈ made, entry.context.executionId ≠ id)
  condemned : ∀ handle id, c.Condemned handle id →
    later.Condemned handle id ∨ later.Served handle id
  served : ∀ handle id, c.Served handle id → later.Served handle id

variable {manner : Manner} {c middle later : Coordinator} {session : Session} {handle : Nat}
  {id : String}

/-! ## Sound records -/

theorem Sound.eq_of_handle (sound : c.Sound) {a b : Session} (ha : a ∈ c.sessions)
    (hb : b ∈ c.sessions) (same : a.handle = b.handle) : a = b := by
  have distinct := sound.distinct
  rw [numbers, List.append_assoc] at distinct
  exact List.inj_on_of_nodup_map (List.nodup_append.1 distinct).1 ha hb same

theorem Sound.eq_of_id (sound : c.Sound) {a b : Session} (ha : a ∈ c.sessions)
    (hb : b ∈ c.sessions) (same : a.id = b.id) : a = b :=
  List.inj_on_of_nodup_map sound.ids ha hb same

/-- A session is found by its handle. -/
theorem Sound.session?_eq (sound : c.Sound) (member : session ∈ c.sessions) :
    c.session? session.handle = some session := by
  have distinct := sound.distinct
  rw [numbers, List.append_assoc] at distinct
  exact find?_of_nodup (List.nodup_append.1 distinct).1 member

/-- A session is found by its id. -/
theorem Sound.find?_eq (sound : c.Sound) (member : session ∈ c.sessions) :
    c.find? session.id = some session := find?_of_nodup sound.ids member

/-- An end is found by its handle. -/
theorem Sound.end?_eq (sound : c.Sound) {e : End} (member : e ∈ c.ends) :
    c.end? e.handle = some e := find?_of_nodup (List.nodup_append.1 sound.distinct).2.1 member

/-- No session has the handle of an end. -/
theorem Sound.handle_ne_end (sound : c.Sound) (member : session ∈ c.sessions) {e : End}
    (ended : e ∈ c.ends) : session.handle ≠ e.handle := by
  intro same
  refine List.disjoint_of_nodup_append sound.distinct
    (List.mem_append_left _ (List.mem_map_of_mem member)) ?_
  rw [same]
  exact List.mem_map_of_mem ended

theorem Condemned.no_end (h : c.Condemned handle id) (sound : c.Sound) : c.end? handle = none := by
  obtain ⟨session, member, rfl, -, -⟩ := h
  refine List.find?_eq_none.2 fun e ended same => ?_
  exact sound.handle_ne_end member ended (of_decide_eq_true same).symm

/-- A request that has ended as a cancelled one has no session any more, and no other end. -/
theorem Served.end? (h : c.Served handle id) (sound : c.Sound) :
    c.session? handle = none ∧ ∃ e, c.end? handle = some e ∧ e.response.executionId = id ∧
      e.response.IsCancelled := by
  obtain ⟨e, member, rfl, own, cancelled⟩ := h
  refine ⟨List.find?_eq_none.2 fun session inside same => ?_, e, sound.end?_eq member, own,
    cancelled⟩
  exact sound.handle_ne_end inside member (of_decide_eq_true same)

/-! ## Tending -/

/-- What holds when no request is left, and is kept by every cancellation that has been asked for,
holds when all are granted. -/
theorem grantRequests_induction {P : Coordinator → Prop}
    (cleared : P { c with world := { c.world with requests := [] } })
    (cancels : ∀ middle, ∀ id ∈ c.world.requests, P middle → P (middle.cancel id).2) :
    P c.grantRequests := by
  have each (ids : List String) (asked : ids ⊆ c.world.requests) (middle : Coordinator)
      (h : P middle) : P (ids.foldl (fun c id => (c.cancel id).2) middle) := by
    induction ids generalizing middle with
    | nil => exact h
    | cons id rest ih =>
      rw [List.cons_subset] at asked
      exact ih asked.2 _ (cancels middle id asked.1 h)
  exact each _ (List.Subset.refl _) _ cleared

namespace Tended

theorem refl (c : Coordinator) : c.Tended c :=
  ⟨rfl, rfl, rfl, rfl, rfl, rfl, fun _ _ h => h, id, id⟩

theorem trans (first : c.Tended middle) (second : middle.Tended later) : c.Tended later :=
  ⟨second.names.trans first.names, second.arrivals.trans first.arrivals,
    second.ends.trans first.ends, second.issued.trans first.issued,
    second.calls.trans first.calls, second.openings.trans first.openings,
    fun handle id condemned => second.condemned handle id (first.condemned handle id condemned),
    fun gated => second.gated (first.gated gated),
    fun sound => second.sessions (first.sessions sound)⟩

theorem handles (h : c.Tended later) :
    later.sessions.map Session.handle = c.sessions.map Session.handle := by
  have first : Session.handle = Prod.fst ∘ Session.name := rfl
  rw [first, ← List.map_map, ← List.map_map, h.names]

theorem ids (h : c.Tended later) : later.sessions.map Session.id = c.sessions.map Session.id := by
  have second : Session.id = Prod.snd ∘ Session.name := rfl
  rw [second, ← List.map_map, ← List.map_map, h.names]

theorem taken (h : c.Tended later) : later.taken = c.taken := by
  rw [Coordinator.taken, Coordinator.taken, h.handles, h.ends]

theorem sound (h : c.Tended later) (sound : c.Sound) : later.Sound := by
  have numbers : later.numbers = c.numbers := by
    rw [Coordinator.numbers, Coordinator.numbers, h.handles, h.arrivals, h.ends]
  refine ⟨?_, ?_, ?_, h.gated sound.gated, h.sessions sound.sessions,
    h.openings.trans sound.settled⟩
  · rw [numbers]
    exact sound.distinct
  · rw [numbers, h.issued]
    exact sound.given
  · rw [h.ids]
    exact sound.ids

/-- The sessions are the same, and only the time and the log of the world may have changed. -/
theorem of_eq (sessions : later.sessions = c.sessions) (gated : c.Gated → later.Gated)
    (arrivals : later.arrivals = c.arrivals) (ends : later.ends = c.ends)
    (issued : later.handles = c.handles) (calls : later.world.calls = c.world.calls)
    (tickets : later.world.tickets = c.world.tickets)
    (openings : later.world.openings = c.world.openings) : c.Tended later := by
  refine ⟨congrArg _ sessions, arrivals, ends, issued, calls, openings, ?_, gated, ?_⟩
  · intro handle id condemned
    rw [Condemned, sessions]
    exact condemned
  · intro sound session member
    rw [sessions] at member
    exact (sound session member).mono (Nat.le_of_eq tickets.symm)

/-- Each session is changed in its place. -/
theorem map {f : Session → Session} (name : ∀ session, (f session).name = session.name)
    (cancelled : ∀ session, session.cancelled = true → (f session).cancelled = true)
    (gated : ∀ session, (f session).phase = .queued → session.phase = .queued)
    (sound : ∀ session, session.Sound c.world → (f session).Sound c.world) :
    c.Tended { c with sessions := c.sessions.map f } := by
  have handle (session : Session) : (f session).handle = session.handle :=
    congrArg Prod.fst (name session)
  have id (session : Session) : (f session).id = session.id := congrArg Prod.snd (name session)
  refine ⟨?_, rfl, rfl, rfl, rfl, rfl, ?_, ?_, ?_⟩
  · simp only [List.map_map]
    exact List.map_congr_left fun session _ => name session
  · rintro _ _ ⟨session, member, rfl, rfl, dead⟩
    exact ⟨f session, List.mem_map_of_mem member, handle session, id session,
      cancelled session dead⟩
  · intro all session member queued
    obtain ⟨old, inside, rfl⟩ := List.mem_map.1 member
    rw [handle old]
    exact all old inside (gated old queued)
  · intro all session member
    obtain ⟨old, inside, rfl⟩ := List.mem_map.1 member
    exact sound old (all old inside)

theorem wake (c : Coordinator) (handle : Nat) : c.Tended (c.wake handle) := by
  refine .of_eq rfl id ?_ rfl rfl rfl rfl rfl
  simp [Coordinator.wake, Coordinator.arrivals, Ready.arrival?]

theorem cancel (sound : c.Sound) (id : String) : c.Tended (c.cancel id).2 := by
  unfold Coordinator.cancel
  split
  · exact .refl c
  · next session found =>
    have member : session ∈ c.sessions := List.mem_of_find?_eq_some found
    dsimp only
    have replaced : c.Tended (c.replace (session.cancel c.world.now)) := by
      -- The session with the handle is the one that was found.
      let halt (s : Session) : Session :=
        if s.handle = session.handle then s.cancel c.world.now else s
      have same : c.replace (session.cancel c.world.now) =
          { c with sessions := c.sessions.map halt } := by
        refine congrArg (fun sessions => { c with sessions := sessions : Coordinator }) ?_
        refine List.map_congr_left fun other inside => ?_
        dsimp only [halt]
        split
        · next twin =>
          cases sound.eq_of_handle inside member twin
          exact (if_pos rfl).symm
        · next other => exact (if_neg other).symm
      rw [same]
      refine map ?_ ?_ ?_ ?_ <;> dsimp only [halt]
      · intro s
        split <;> rfl
      · intro s dead
        split
        · rfl
        · exact dead
      · intro s queued
        split at queued <;> exact queued
      · intro s sound
        split
        · exact sound.cancel _
        · exact sound
    split
    · exact replaced.trans (wake _ _)
    · exact replaced

theorem grantRequests (sound : c.Sound) : c.Tended c.grantRequests := by
  refine grantRequests_induction (.of_eq rfl id rfl rfl rfl rfl rfl rfl) fun middle id _ tended => ?_
  exact tended.trans (cancel (tended.sound sound) id)

theorem release (c : Coordinator) : c.Tended c.release := by
  unfold Coordinator.release
  split
  · exact .of_eq rfl id rfl rfl rfl rfl rfl rfl
  · next handle rest queue =>
    let through (s : Session) : Session :=
      if s.handle = handle then { s with phase := .admitted } else s
    have admitted : c.Tended { c with sessions := c.sessions.map through } := by
      refine map ?_ ?_ ?_ ?_ <;> dsimp only [through]
      · intro s
        split <;> rfl
      · intro s dead
        split <;> exact dead
      · intro s queued
        split at queued
        · cases queued
        · exact queued
      · intro s sound
        split
        · trivial
        · exact sound
    refine admitted.trans (.trans ?_ (wake _ handle))
    refine .of_eq rfl (fun gated session member queued => ?_) rfl rfl rfl rfl rfl rfl
    -- Whoever has left the queue does not wait at the gate any more.
    have place : session.handle ∈ c.queue := gated session member queued
    rw [queue] at place
    refine (List.mem_cons.1 place).resolve_left fun first => ?_
    obtain ⟨old, _, rfl⟩ := List.mem_map.1 member
    by_cases own : old.handle = handle
    · rw [if_pos own] at queued
      cases queued
    · rw [if_neg own] at first
      exact own first

end Tended

/-! ## Going on -/

/-- A session that is found by some name is still found by it. -/
theorem Tended.exists_session (h : c.Tended later) (member : session ∈ c.sessions) :
    ∃ other ∈ later.sessions, other.handle = session.handle ∧ other.id = session.id := by
  have kept : session.name ∈ later.sessions.map Session.name := by
    rw [h.names]
    exact List.mem_map_of_mem member
  obtain ⟨other, inside, same⟩ := List.mem_map.1 kept
  exact ⟨other, inside, congrArg Prod.fst same, congrArg Prod.snd same⟩

namespace Goes

theorem of_tended (tended : c.Tended later) (sound : c.Sound) : c.Goes manner later := by
  refine ⟨tended.sound sound, tended.taken ▸ List.Subset.refl _,
    ⟨[], ?_, fun _ _ _ _ _ member => absurd member List.not_mem_nil⟩,
    fun handle id condemned => .inl (tended.condemned handle id condemned),
    fun handle id served => ?_⟩
  · rw [tended.calls, List.append_nil]
  · rw [Served, tended.ends]
    exact served

/-- What only tends its sessions may follow. -/
theorem tend (first : Goes manner c middle) (second : middle.Tended later) :
    Goes manner c later := by
  refine ⟨second.sound first.sound, second.taken ▸ first.kept, ?_, fun handle id condemned => ?_,
    fun handle id served => ?_⟩
  · rw [second.calls]
    exact first.calls
  · refine (first.condemned handle id condemned).imp (second.condemned handle id) fun served => ?_
    rw [Served, second.ends]
    exact served
  · rw [Served, second.ends]
    exact first.served handle id served

/-- One thing may follow another that makes no calls and takes nobody off. -/
theorem after (first : Goes manner c middle) (calls : middle.world.calls = c.world.calls)
    (kept : ∀ handle id, c.Condemned handle id → middle.Condemned handle id)
    (second : Goes manner middle later) : Goes manner c later := by
  obtain ⟨made, more, own⟩ := second.calls
  refine ⟨second.sound, List.Subset.trans first.kept second.kept, ⟨made, ?_,
      fun hearing handle id condemned => own hearing handle id (kept handle id condemned)⟩,
    fun handle id condemned => second.condemned handle id (kept handle id condemned),
    fun handle id served => second.served handle id (first.served handle id served)⟩
  rw [more, calls]

end Goes

/-- A condemned session of the id of one that goes on is that session, so it adds no calls unless it
is deaf. -/
theorem calls_of_adds (sound : c.Sound) (member : session ∈ c.sessions) {world : World}
    (adds : session.Adds manner c.world world) : ∃ made, world.calls = c.world.calls ++ made ∧
      (manner ≠ .deaf →
        ∀ handle id, c.Condemned handle id → ∀ entry ∈ made, entry.context.executionId ≠ id) := by
  obtain ⟨made, calls, own, obeys⟩ := adds.calls
  refine ⟨made, calls, ?_⟩
  rintro hearing _ _ ⟨other, inside, rfl, rfl, dead⟩ entry among same
  cases sound.eq_of_id inside member (same.symm.trans (own entry among))
  rw [obeys hearing dead] at among
  cases among

/-- A session adds to the world. -/
theorem goes_adds (sound : c.Sound) (member : session ∈ c.sessions) {world : World}
    (adds : session.Adds manner c.world world) : Goes manner c { c with world := world } :=
  ⟨⟨sound.distinct, sound.given, sound.ids, sound.gated,
      fun other inside => (sound.sessions other inside).mono adds.tickets,
      adds.settled sound.settled⟩, List.Subset.refl _,
    calls_of_adds sound member adds, fun _ _ condemned => .inl condemned, fun _ _ served => served⟩

/-- A session is replaced by what it has become. -/
theorem tended_replace (sound : c.Sound) (member : session ∈ c.sessions) {next : Session}
    (handle : next.handle = session.handle) (id : next.id = session.id)
    (cancelled : next.cancelled = session.cancelled) (through : next.phase ≠ .queued)
    (nextSound : next.Sound c.world) : c.Tended (c.replace next) := by
  have own {s : Session} (inside : s ∈ c.sessions) (same : s.handle = next.handle) : s = session :=
    sound.eq_of_handle inside member (same.trans handle)
  refine ⟨?_, rfl, rfl, rfl, rfl, rfl, ?_, ?_, ?_⟩
  · simp only [replace, List.map_map]
    refine List.map_congr_left fun s inside => ?_
    dsimp only [Function.comp]
    split
    · next same => rw [own inside same, Session.name, handle, id, Session.name]
    · rfl
  · rintro _ _ ⟨s, inside, rfl, rfl, dead⟩
    by_cases same : s.handle = next.handle
    · refine ⟨next, List.mem_map.2 ⟨s, inside, if_pos same⟩, same.symm, ?_, ?_⟩
      · rw [own inside same, id]
      · rw [cancelled, ← own inside same, dead]
    · exact ⟨s, List.mem_map.2 ⟨s, inside, if_neg same⟩, rfl, rfl, dead⟩
  · intro all s inside queued
    obtain ⟨old, among, rfl⟩ := List.mem_map.1 inside
    split at queued
    · exact absurd queued through
    · next other =>
      rw [if_neg other]
      exact all old among queued
  · intro all s inside
    obtain ⟨old, among, rfl⟩ := List.mem_map.1 inside
    split
    · exact nextSound
    · exact all old among

/-- Requests come to stand in line or leave it. -/
theorem goes_of_arrivals (sound : c.Sound) (sessions : later.sessions = c.sessions)
    (queue : later.queue = c.queue) (ends : later.ends = c.ends) (world : later.world = c.world)
    (distinct : later.numbers.Nodup) (given : ∀ handle ∈ later.numbers, handle < later.handles) :
    Goes manner c later := by
  have kept : c.taken ⊆ later.taken := by rw [taken, taken, sessions, ends]; exact fun _ h => h
  refine ⟨⟨distinct, given, ?_, ?_, ?_, ?_⟩, kept,
    ⟨[], ?_, fun _ _ _ _ _ member => absurd member List.not_mem_nil⟩,
    fun handle id condemned => ?_, fun handle id served => ?_⟩
  · rw [sessions]
    exact sound.ids
  · rw [Gated, sessions, queue]
    exact sound.gated
  · rw [sessions, world]
    exact sound.sessions
  · rw [world]
    exact sound.settled
  · rw [world, List.append_nil]
  · left
    rw [Condemned, sessions]
    exact condemned
  · rw [Served, ends]
    exact served

/-- A request ends. If it had a session, that is taken off. -/
theorem goes_retire (first : Goes manner c middle)
    (kept : ∀ handle id, c.Condemned handle id → middle.Condemned handle id) {e : End}
    (sessions : later.sessions = middle.sessions.filter fun s => s.handle ≠ e.handle)
    (queue : later.queue = middle.queue) (arrivals : later.arrivals = middle.arrivals)
    (ends : later.ends = middle.ends ++ [e]) (issued : later.handles = middle.handles)
    (calls : later.world.calls = middle.world.calls)
    (tickets : later.world.tickets = middle.world.tickets)
    (openings : later.world.openings = middle.world.openings) (given : e.handle < middle.handles)
    (apart : e.handle ∉ middle.arrivals ++ middle.ends.map End.handle)
    (obeys : ∀ id, c.Condemned e.handle id →
      e.response.executionId = id ∧ e.response.IsCancelled) : Goes manner c later := by
  have sound := first.sound
  have sublist : later.sessions.Sublist middle.sessions := by
    rw [sessions]
    exact List.filter_sublist
  have numbers : later.numbers = later.sessions.map Session.handle ++
      (middle.arrivals ++ middle.ends.map End.handle) ++ [e.handle] := by
    rw [Coordinator.numbers, arrivals, ends, List.map_append, List.map_singleton]
    simp only [List.append_assoc]
  have before : (later.sessions.map Session.handle ++
      (middle.arrivals ++ middle.ends.map End.handle)).Sublist middle.numbers := by
    rw [Coordinator.numbers, List.append_assoc]
    exact (sublist.map _).append_right _
  have gone : e.handle ∉ later.sessions.map Session.handle := by
    rw [sessions]
    intro member
    obtain ⟨s, inside, same⟩ := List.mem_map.1 member
    simpa [same] using (List.mem_filter.1 inside).2
  refine ⟨⟨?_, ?_, sound.ids.sublist (sublist.map _), ?_, ?_, openings.trans sound.settled⟩,
    List.Subset.trans first.kept ?_, ?_, fun handle id condemned => ?_, ?_⟩
  · rw [numbers]
    refine List.nodup_append.2 ⟨sound.distinct.sublist before, List.nodup_singleton _, ?_⟩
    intro handle member other single
    cases List.mem_singleton.1 single
    rintro rfl
    exact (List.mem_append.1 member).elim gone apart
  · rw [numbers, issued]
    intro handle member
    rcases List.mem_append.1 member with member | member
    · exact sound.given handle (before.subset member)
    · cases List.mem_singleton.1 member
      exact given
  · intro session member queued
    rw [queue]
    exact sound.gated session (sublist.subset member) queued
  · intro session member
    exact (sound.sessions session (sublist.subset member)).mono (Nat.le_of_eq tickets.symm)
  · intro handle member
    rw [taken, ends, sessions, List.map_append, List.map_singleton]
    rcases List.mem_append.1 member with member | member
    · obtain ⟨s, inside, rfl⟩ := List.mem_map.1 member
      by_cases same : s.handle = e.handle
      · rw [same]
        exact List.mem_append_right _ (List.mem_append_right _ List.mem_cons_self)
      · exact List.mem_append_left _
          (List.mem_map_of_mem (List.mem_filter.2 ⟨inside, decide_eq_true same⟩))
    · exact List.mem_append_right _ (List.mem_append_left _ member)
  · rw [calls]
    exact first.calls
  · by_cases same : handle = e.handle
    · subst same
      obtain ⟨own, cancelled⟩ := obeys id condemned
      exact .inr ⟨e, ends ▸ List.mem_append_right _ List.mem_cons_self, rfl, own, cancelled⟩
    · left
      obtain ⟨session, member, rfl, own, dead⟩ := kept handle id condemned
      refine ⟨session, ?_, rfl, own, dead⟩
      rw [sessions]
      exact List.mem_filter.2 ⟨member, by simpa using same⟩
  · intro handle id served
    obtain ⟨other, member, rest⟩ := first.served handle id served
    exact ⟨other, ends ▸ List.mem_append_left _ member, rest⟩

/-- A request becomes a session. -/
theorem goes_admit (sound : c.Sound) (sessions : later.sessions = c.sessions ++ [session])
    (arrivals : later.arrivals = c.arrivals) (ends : later.ends = c.ends)
    (issued : later.handles = c.handles) (world : later.world = c.world)
    (fresh : session.handle ∉ c.numbers) (given : session.handle < c.handles)
    (unknown : ∀ other ∈ c.sessions, other.id ≠ session.id) (queue : c.queue ⊆ later.queue)
    (place : session.phase = .queued → session.handle ∈ later.queue) (new : session.Sound c.world) :
    Goes manner c later := by
  have numbers : later.numbers.Perm (session.handle :: c.numbers) := by
    rw [Coordinator.numbers, Coordinator.numbers, sessions, arrivals, ends, List.map_append,
      List.map_singleton]
    simp only [List.append_assoc, List.singleton_append]
    exact List.perm_middle
  have kept : c.taken ⊆ later.taken := by
    rw [taken, taken, sessions, ends, List.map_append, List.append_assoc]
    exact List.append_subset.2 ⟨List.subset_append_left _ _,
      List.subset_append_of_subset_right _ (List.subset_append_right _ _)⟩
  refine ⟨⟨?_, ?_, ?_, ?_, ?_, ?_⟩, kept,
    ⟨[], ?_, fun _ _ _ _ _ member => absurd member List.not_mem_nil⟩,
    fun handle id condemned => ?_, fun handle id served => ?_⟩
  · exact numbers.nodup_iff.2 (List.nodup_cons.2 ⟨fresh, sound.distinct⟩)
  · intro handle member
    rw [issued]
    rcases List.mem_cons.1 (numbers.subset member) with rfl | member
    · exact given
    · exact sound.given handle member
  · rw [sessions, List.map_append, List.map_singleton]
    refine List.nodup_append.2 ⟨sound.ids, List.nodup_singleton _, ?_⟩
    intro id member other single
    cases List.mem_singleton.1 single
    obtain ⟨known, inside, rfl⟩ := List.mem_map.1 member
    exact unknown known inside
  · rw [Gated, sessions]
    intro other member queued
    rcases List.mem_append.1 member with member | member
    · exact queue (sound.gated other member queued)
    · cases List.mem_singleton.1 member
      exact place queued
  · rw [sessions, world]
    intro other member
    rcases List.mem_append.1 member with member | member
    · exact sound.sessions other member
    · cases List.mem_singleton.1 member
      exact new
  · rw [world]
    exact sound.settled
  · rw [world, List.append_nil]
  · obtain ⟨other, member, rest⟩ := condemned
    exact .inl ⟨other, sessions ▸ List.mem_append_left _ member, rest⟩
  · rw [Served, ends]
    exact served

/-! ## What a coordinator does -/

/-- Whatever a session has come to is taken over. -/
theorem goes_settle (sound : c.Sound) (member : session ∈ c.sessions) {p : World × Move}
    (goes : session.Goes manner c.world p) : Goes manner c (c.settle session p) := by
  obtain ⟨world, move⟩ := p
  have added : Goes manner c { c with world := world } := goes_adds sound member goes.adds
  cases goes.comes with
  | @stays next handle id cancelled through _ nextSound =>
    have replaced := tended_replace added.sound member handle id cancelled through nextSound
    have after := added.tend replaced
    exact after.tend (.grantRequests after.sound)
  | @ends response own obeys =>
    have tended := (Tended.grantRequests added.sound).trans (.release _)
    have after := added.tend tended
    have place : session.handle ∈ c.sessions.map Session.handle := List.mem_map_of_mem member
    have numbers := sound.distinct
    rw [Coordinator.numbers, List.append_assoc] at numbers
    refine goes_retire (e := ⟨session.handle, _, response⟩) after
      (fun handle id condemned => tended.condemned handle id condemned) rfl rfl rfl rfl rfl rfl rfl
      rfl ?_ ?_ ?_
    · rw [tended.issued]
      exact sound.given _ (List.mem_append_left _ (List.mem_append_left _ place))
    · rw [tended.arrivals, tended.ends]
      exact fun other => List.disjoint_of_nodup_append numbers place other
    · rintro _ ⟨other, inside, same, rfl, dead⟩
      cases sound.eq_of_handle inside member same
      exact ⟨own, obeys dead⟩

end Coordinator

end Stepwise
