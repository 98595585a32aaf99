import Stepwise.Proofs.Coordinator.Schedule

/-!
# Coordinators at rest

Between two moves a coordinator has granted all that answers have asked for, and every session
that has been let through the gate stands in line (`Lined`) until it has its turn. It begins with
its turn, so nobody is let through and forgotten. Nor is any request: as long as it does not stand
in line it has a session or an end (`Complete`). This and the sound records make up `AtRest`.
-/

namespace Stepwise

namespace Coordinator

/-- Every session that has been let through stands in line, but for one that is busy. -/
def Lined (c : Coordinator) (busy : Option Nat) : Prop :=
  ∀ session ∈ c.sessions, session.phase = .admitted →
    .session session.handle ∈ c.ready ∨ busy = some session.handle

/-- Every handle that was given out is that of a request that stands in line, of a session or of an
end. -/
def Complete (c : Coordinator) : Prop :=
  ∀ handle < c.handles, handle ∈ c.arrivals ∨ handle ∈ c.taken

/-- A coordinator between two moves. -/
structure AtRest (c : Coordinator) : Prop where
  sound : c.Sound
  granted : c.world.requests = []
  lined : c.Lined none
  complete : c.Complete

variable {rules : Rules} {manner : Manner} {c later : Coordinator} {session : Session}
  {busy : Option Nat} {handle : Nat}

/-! ## What answers ask for -/

@[simp] theorem world_cancel (c : Coordinator) (id : String) : (c.cancel id).2.world = c.world := by
  unfold Coordinator.cancel
  split
  · rfl
  · dsimp only
    split <;> rfl

@[simp] theorem world_grantRequests (c : Coordinator) :
    c.grantRequests.world = { c.world with requests := [] } := by
  refine grantRequests_induction (P := fun d => d.world = { c.world with requests := [] }) rfl
    fun middle id _ h => ?_
  rw [world_cancel]
  exact h

/-- Without any request nothing is cancelled. -/
theorem sessions_grantRequests (quiet : c.world.requests = []) :
    c.grantRequests.sessions = c.sessions := by
  rw [grantRequests, quiet]
  rfl

@[simp] theorem world_release (c : Coordinator) : c.release.world = c.world := by
  unfold Coordinator.release
  split <;> rfl

/-- Whatever answers have asked for is granted when their step is taken over. -/
theorem requests_settle (c : Coordinator) (session : Session) (p : World × Move) :
    (c.settle session p).world.requests = [] := by
  obtain ⟨world, move⟩ := p
  cases move with
  | stays next => exact congrArg World.requests (world_grantRequests _)
  | ends response =>
    have released := world_release (Coordinator.grantRequests { c with world := world })
    exact congrArg World.requests (released.trans (world_grantRequests _))

theorem requests_stimulate (granted : c.world.requests = []) (session : Session)
    (stimulus : Run.Stimulus) : (c.stimulate session stimulus).world.requests = [] := by
  rcases c.stimulate_cases session stimulus with ⟨-, same⟩ | ⟨p, -, same⟩
  · rw [same]
    exact granted
  · rw [same]
    exact requests_settle c session p

theorem requests_accept (granted : c.world.requests = []) (handle : Nat) (request : Request) :
    (c.accept handle request).world.requests = [] := by
  rw [accept_eq c handle request]
  split
  · exact granted
  · split
    · exact granted
    · split
      · exact granted
      · exact requests_settle ..

/-! ## What keeps sessions in line -/

theorem Lined.weaken (h : c.Lined none) (busy : Option Nat) : c.Lined busy := by
  intro session member admitted
  exact .inl ((h session member admitted).resolve_right nofun)

/-- Whoever has been let through had been before, or stands in line. -/
theorem Lined.grow (h : c.Lined busy) (ready : c.ready ⊆ later.ready)
    (sessions : ∀ s ∈ later.sessions, s.phase = .admitted →
      (∃ old ∈ c.sessions, old.handle = s.handle ∧ old.phase = .admitted) ∨
        .session s.handle ∈ later.ready) : later.Lined busy := by
  intro s member admitted
  rcases sessions s member admitted with ⟨old, inside, same, before⟩ | stands
  · rw [← same]
    exact (h old inside before).imp_left fun stands => ready stands
  · exact .inl stands

theorem Lined.of_eq (h : c.Lined busy) (sessions : later.sessions = c.sessions)
    (ready : later.ready = c.ready) : later.Lined busy := by
  refine h.grow (ready ▸ List.Subset.refl _) fun s member admitted => .inl ⟨s, ?_, rfl, admitted⟩
  rw [← sessions]
  exact member

theorem Lined.cancel (h : c.Lined busy) (id : String) : (c.cancel id).2.Lined busy := by
  unfold Coordinator.cancel
  split
  · exact h
  · next session found =>
    dsimp only
    have replaced : (c.replace (session.cancel c.world.now)).Lined busy := by
      refine h.grow (List.Subset.refl _) fun s member admitted => .inl ?_
      obtain ⟨old, inside, rfl⟩ := List.mem_map.1 member
      split at admitted
      · next same =>
        rw [if_pos same]
        exact ⟨session, List.mem_of_find?_eq_some found, rfl, admitted⟩
      · next other =>
        rw [if_neg other]
        exact ⟨old, inside, rfl, admitted⟩
    split
    · refine replaced.grow (List.subset_append_left _ _) fun s member admitted => ?_
      exact .inl ⟨s, member, rfl, admitted⟩
    · exact replaced

theorem Lined.grantRequests (h : c.Lined busy) : c.grantRequests.Lined busy :=
  grantRequests_induction (P := fun d => d.Lined busy) (h.of_eq rfl rfl) fun _ id _ lined =>
    lined.cancel id

/-- Whoever is let through comes to stand in line. -/
theorem Lined.release (h : c.Lined busy) : c.release.Lined busy := by
  unfold Coordinator.release
  split
  · exact h.of_eq rfl rfl
  · next handle rest queue =>
    refine h.grow (List.subset_append_left _ _) fun s member admitted => ?_
    obtain ⟨old, inside, rfl⟩ := List.mem_map.1 member
    split at admitted
    · next same =>
      right
      rw [if_pos same, same]
      exact List.mem_append_right _ List.mem_cons_self
    · next other =>
      left
      rw [if_neg other]
      exact ⟨old, inside, rfl, admitted⟩

/-! ## Turns -/

/-- Whatever a session comes to, it has begun. -/
theorem lined_settle (h : c.Lined (some session.handle)) {p : World × Move}
    (comes : session.Comes p.1 p.2) : (c.settle session p).Lined none := by
  have others {s : Session} (member : s ∈ c.sessions) (other : s.handle ≠ session.handle)
      (admitted : s.phase = .admitted) : .session s.handle ∈ c.ready := by
    refine (h s member admitted).resolve_right fun same => ?_
    exact other (Option.some_inj.1 same).symm
  obtain ⟨world, move⟩ := p
  cases comes with
  | @stays next own id cancelled through begun sound =>
    refine Lined.grantRequests fun s member admitted => .inl ?_
    obtain ⟨old, inside, rfl⟩ := List.mem_map.1 member
    split at admitted
    · exact absurd admitted begun
    · next other =>
      rw [if_neg other]
      exact others inside (own ▸ other) admitted
  | ends own obeys =>
    have released : (Coordinator.release
        (Coordinator.grantRequests { c with world := world })).Lined (some session.handle) :=
      .release (.grantRequests (h.of_eq rfl rfl))
    intro s member admitted
    obtain ⟨inside, other⟩ := List.mem_filter.1 member
    refine .inl ((released s inside admitted).resolve_right fun same => ?_)
    exact of_decide_eq_true other (Option.some_inj.1 same).symm

theorem lined_proceed (h : c.Lined (some session.handle)) : (c.proceed session).Lined none := by
  have goes : session.Goes .deaf c.world (session.proceed c.engine c.policy c.world) :=
    Session.goes_proceed c.world session
  exact lined_settle h goes.comes

/-- After its turn a session has begun, whatever has come to it. -/
theorem lined_stimulate (sound : c.Sound) (member : session ∈ c.sessions)
    (h : c.Lined (some session.handle)) (stimulus : Run.Stimulus) :
    (c.stimulate session stimulus).Lined none := by
  rcases c.stimulate_cases session stimulus with ⟨begun, same⟩ | ⟨p, steps, same⟩
  · rw [same]
    intro s inside admitted
    refine .inl ((h s inside admitted).resolve_right fun same => begun ?_)
    rw [← sound.eq_of_handle inside member (Option.some_inj.1 same).symm]
    exact admitted
  · rw [same]
    exact lined_settle h (steps.goes_deaf (sound.sessions session member)).comes

/-- A request waits at the gate, or it is let through and has begun. -/
theorem lined_accept (h : c.Lined none) (handle : Nat) (request : Request) :
    (c.accept handle request).Lined none := by
  rw [accept_eq c handle request]
  split
  · exact h.of_eq rfl rfl
  · split
    · exact h.of_eq rfl rfl
    · split
      · intro s member admitted
        rcases List.mem_append.1 member with member | member
        · exact h s member admitted
        · cases List.mem_singleton.1 member
          cases admitted
      · refine lined_proceed fun s member admitted => ?_
        rcases List.mem_append.1 member with member | member
        · exact h.weaken _ s member admitted
        · cases List.mem_singleton.1 member
          exact .inr rfl

theorem lined_turn {before after : List Ready} {next : Ready} (sound : c.Sound) (h : c.Lined none)
    (line : c.ready = before ++ next :: after) :
    ((c.standing (before ++ after)).turn next).Lined none := by
  have left (s : Session) (member : s ∈ c.sessions) (admitted : s.phase = .admitted) :
      .session s.handle ∈ before ++ after ∨ next = .session s.handle := by
    have stands := (h s member admitted).resolve_right nofun
    rw [line] at stands
    rcases List.mem_append.1 stands with first | stands
    · exact .inl (List.mem_append_left _ first)
    · rcases List.mem_cons.1 stands with own | last
      · exact .inr own.symm
      · exact .inl (List.mem_append_right _ last)
  have left' : Goes .deaf c (c.standing (before ++ after)) := goes_standing sound line
  cases next with
  | arrival handle request =>
    refine lined_accept (fun s member admitted => .inl ?_) handle request
    exact (left s member admitted).resolve_right nofun
  | session handle =>
    rw [turn]
    split
    · next session found =>
      have member : session ∈ c.sessions := List.mem_of_find?_eq_some found
      have own : session.handle = handle := by simpa using List.find?_some found
      refine lined_stimulate left'.sound member (fun s inside admitted => ?_) _
      rw [own]
      exact (left s inside admitted).imp_right fun same => by cases same; rfl
    · next missing =>
      intro s member admitted
      refine .inl ((left s member admitted).resolve_right fun same => ?_)
      cases same
      exact List.find?_eq_none.1 missing s member (decide_eq_true rfl)

/-! ## What becomes of requests -/

/-- A step of a session leaves the line to others as it was. -/
theorem line_settle (sound : c.Sound) (member : session ∈ c.sessions) {p : World × Move}
    (goes : session.Goes manner c.world p) :
    (c.settle session p).arrivals = c.arrivals ∧ (c.settle session p).handles = c.handles := by
  obtain ⟨world, move⟩ := p
  have added := (goes_adds sound member goes.adds).sound
  cases goes.comes with
  | stays handle id cancelled through _ nextSound =>
    have replaced := tended_replace added member handle id cancelled through nextSound
    have granted := replaced.trans (.grantRequests (replaced.sound added))
    exact ⟨granted.arrivals, granted.issued⟩
  | ends =>
    have released := (Tended.grantRequests added).trans (.release _)
    exact ⟨released.arrivals, released.issued⟩

theorem line_stimulate (sound : c.Sound) (member : session ∈ c.sessions) (stimulus : Run.Stimulus) :
    (c.stimulate session stimulus).arrivals = c.arrivals ∧
      (c.stimulate session stimulus).handles = c.handles := by
  rcases c.stimulate_cases session stimulus with ⟨-, same⟩ | ⟨p, steps, same⟩
  · rw [same]
    exact ⟨rfl, rfl⟩
  · rw [same]
    exact line_settle sound member (steps.goes_deaf (sound.sessions session member))

/-- A request that is accepted has a session or an end from then on. -/
theorem line_accept (sound : c.Sound) (fresh : handle ∉ c.numbers) (given : handle < c.handles)
    (request : Request) : (c.accept handle request).arrivals = c.arrivals ∧
      (c.accept handle request).handles = c.handles ∧
      handle ∈ (c.accept handle request).taken := by
  have ended (later : Coordinator) (time : Nat) (response : Response)
      (ends : later.ends = c.ends ++ [⟨handle, time, response⟩]) : handle ∈ later.taken := by
    rw [taken, ends, List.map_append]
    exact List.mem_append_right _ (List.mem_append_right _ List.mem_cons_self)
  rw [accept_eq c handle request]
  split
  · exact ⟨rfl, rfl, ended _ _ _ rfl⟩
  · split
    · exact ⟨rfl, rfl, ended _ _ _ rfl⟩
    · next inactive =>
      have mine (phase : SessionPhase) : handle ∈ (c.sessions ++
          [c.newcomer handle (c.nameFor handle request) request phase]).map Session.handle :=
        List.mem_map.2 ⟨_, List.mem_append_right _ List.mem_cons_self, rfl⟩
      split
      · exact ⟨rfl, rfl, List.mem_append_left _ (mine .queued)⟩
      · have through : Goes .deaf c _ :=
          goes_enter sound fresh given (ne_of_find?_none inactive) request
        let entered : Session := c.newcomer handle (c.nameFor handle request) request .admitted
        have inside : entered ∈ c.sessions ++ [entered] :=
          List.mem_append_right _ List.mem_cons_self
        have begins : entered.Goes .deaf c.world (entered.proceed c.engine c.policy c.world) :=
          Session.goes_proceed c.world entered
        obtain ⟨arrivals, handles⟩ := line_settle through.sound inside begins
        exact ⟨arrivals, handles, (goes_settle through.sound inside begins).kept
          (List.mem_append_left _ (mine .admitted))⟩

/-- Nobody is lost who stands in line or is taken. -/
theorem Complete.goes (h : c.Complete) (goes : Goes manner c later)
    (arrivals : later.arrivals = c.arrivals) (handles : later.handles = c.handles) :
    later.Complete := by
  intro handle given
  rw [arrivals]
  exact (h handle (handles ▸ given)).imp_right fun known => goes.kept known

theorem Complete.turn {before after : List Ready} {next : Ready} (h : c.Complete) (sound : c.Sound)
    (line : c.ready = before ++ next :: after) :
    ((c.standing (before ++ after)).turn next).Complete := by
  have went : Goes .deaf c ((c.standing (before ++ after)).turn next) := goes_turn sound line
  have standing : Goes .deaf c (c.standing (before ++ after)) := goes_standing sound line
  cases next with
  | session handle =>
    have same : (c.standing (before ++ after)).arrivals = c.arrivals := by
      rw [Coordinator.arrivals, Coordinator.arrivals, line, Coordinator.standing,
        List.filterMap_append, List.filterMap_append]
      rfl
    rw [Coordinator.turn] at went ⊢
    split at went
    · next session found =>
      obtain ⟨arrivals, handles⟩ :=
        line_stimulate standing.sound (List.mem_of_find?_eq_some found) .heed
      exact h.goes went (arrivals.trans same) handles
    · exact h.goes standing same rfl
  | arrival handle request =>
    obtain ⟨fresh, given⟩ := fresh_of_line sound line
    obtain ⟨arrivals, handles, mine⟩ := line_accept standing.sound fresh given request
    rw [Coordinator.turn] at went ⊢
    intro other issued
    rw [arrivals]
    rw [handles] at issued
    rcases h other issued with stands | known
    · simp only [Coordinator.arrivals, line, Coordinator.standing, List.filterMap_append,
        List.filterMap_cons, Ready.arrival?, List.mem_append, List.mem_cons] at stands ⊢
      rcases stands with stands | rfl | stands
      · exact .inl (.inl stands)
      · exact .inr mine
      · exact .inl (.inr stands)
    · exact .inr (went.kept known)

/-! ## Moves -/

/-- Every move ends at rest. -/
theorem Moves.atRest (move : Moves rules c later) (rest : c.AtRest) : later.AtRest := by
  have goes : Goes .deaf c later := move.goes rest.sound fun hearing => absurd rfl hearing
  obtain ⟨before, granted, lined, complete⟩ := rest
  have sound := goes.sound
  cases move with
  | arrive request =>
    have received : c.received.Lined none := lined.of_eq rfl rfl
    have quiet : c.received.world.requests = [] := granted
    have first : Goes .deaf c c.received := goes_received before
    have fresh : c.handles ∉ c.received.numbers := handles_notMem before
    obtain ⟨arrivals, handles, mine⟩ :=
      line_accept first.sound fresh (Nat.lt_succ_self _) request
    refine ⟨sound, requests_accept quiet _ request, lined_accept received _ request, ?_⟩
    intro handle given
    rw [handles] at given
    rw [arrivals]
    rcases Nat.lt_succ_iff_lt_or_eq.1 given with earlier | rfl
    · exact (complete handle earlier).imp_right fun known => goes.kept known
    · exact .inr mine
  | line request =>
    refine ⟨sound, granted, lined.grow (List.subset_append_left _ _) fun s member admitted => ?_,
      fun handle given => ?_⟩
    · exact .inl ⟨s, member, rfl, admitted⟩
    · have arrivals : (c.lined request).arrivals = c.arrivals ++ [c.handles] := by
        simp [Coordinator.lined, Coordinator.arrivals, Ready.arrival?]
      rw [arrivals]
      rcases Nat.lt_succ_iff_lt_or_eq.1 given with earlier | rfl
      · exact (complete handle earlier).imp_left (List.mem_append_left _)
      · exact .inl (List.mem_append_right _ List.mem_cons_self)
  | @turn first last next line =>
    refine ⟨sound, ?_, lined_turn before lined line, complete.turn before line⟩
    have granted : (c.standing (first ++ last)).world.requests = [] := granted
    cases next with
    | arrival handle request => exact requests_accept granted handle request
    | session handle =>
      rw [Coordinator.turn]
      split
      · exact requests_stimulate granted _ _
      · exact granted
  | stimulate member =>
    obtain ⟨arrivals, handles⟩ := line_stimulate before member _
    exact ⟨sound, requests_stimulate granted _ _, lined_stimulate before member (lined.weaken _) _,
      complete.goes goes arrivals handles⟩
  | cancel id =>
    have tended := Tended.cancel before id
    refine ⟨sound, ?_, lined.cancel id, complete.goes goes tended.arrivals tended.issued⟩
    rw [world_cancel]
    exact granted
  | register added =>
    cases register_ok added
    exact ⟨sound, granted, lined.of_eq rfl rfl, complete.goes goes rfl rfl⟩
  | pass => exact ⟨sound, granted, lined.of_eq rfl rfl, complete.goes goes rfl rfl⟩

theorem atRest_make (policy : Policy) (executor : Executor) (ids : Nat → String) :
    (make policy executor ids).AtRest :=
  ⟨sound_make policy executor ids, rfl, fun _ member => absurd member List.not_mem_nil,
    fun _ given => absurd given (Nat.not_lt_zero _)⟩

theorem Leads.atRest (leads : Leads rules c later) (rest : c.AtRest) : later.AtRest := by
  induction leads with
  | refl => exact rest
  | tail _ move ih => exact move.atRest ih

end Coordinator

end Stepwise
