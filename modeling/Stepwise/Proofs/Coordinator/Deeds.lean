import Stepwise.Proofs.Coordinator.Gate
import Stepwise.Proofs.Coordinator.Outlets

/-!
# What requests do

The ledger tells of every session how far its request has come (`Underway`), and of every end how
its request came to it: it was repelled at once, or it ended in full, once, with the callbacks that
waited for it (`Ended`). Of all other requests it tells nothing. All of this is kept by whatever a
coordinator does (`Recounts.does`).
-/

namespace Stepwise

/-- What a request does until it is through the gate. -/
def admission (id : String) (request : Request) : List Deed := [.arrive id request, .reach, .pass]

/-- What an execution tells before its end, with its retries. -/
inductive Voiced (id workflowId : String) : Nat → List Event → Prop
  /-- It was never run. -/
  | silent : Voiced id workflowId 0 []
  | started {nodes retries : Nat} {events : List Event} (retold : Retold id 0 retries events) :
      Voiced id workflowId retries (.workflowStarted workflowId id nodes :: events)

/-- How far the request of a session has come. -/
inductive Underway (session : Session) : List Deed → Prop
  | waits (phase : session.phase = .queued) (status : session.status = .pending)
      (retries : session.retries = 0) :
      Underway session [.arrive session.id session.request, .reach]
  | enters (phase : session.phase = .admitted) (status : session.status = .pending)
      (retries : session.retries = 0) : Underway session (admission session.id session.request)
  | runs {nodes : Nat} {events : List Event} (waits : session.phase ≠ .queued)
      (begun : session.phase ≠ .admitted) (status : session.status = .running)
      (retold : Retold session.id 0 session.retries events) :
      Underway session (admission session.id session.request ++
        (.workflowStarted session.request.workflowId session.id nodes :: events).map .tell)

/-- What a request has done when it comes to its end: nothing if there is no gate, and otherwise
it has passed the gate and told what there was to tell. -/
inductive Passage (policy : Policy) (request : Request) (response : Response) : List Deed → Prop
  | refused (shut : policy.maxConcurrent = 0)
      (same : response = Coordinator.shutOut response.executionId) :
      Passage policy request response [.arrive response.executionId request]
  | served (gate : policy.maxConcurrent ≠ 0) {events : List Event}
      (voiced : Voiced response.executionId request.workflowId response.retries events) :
      Passage policy request response
        (admission response.executionId request ++ events.map .tell)

/-- A request has come to the gate under an id, and has not been answered. -/
structure Open (id : String) (handle : Nat) (log : List Item) : Prop where
  taken : ∃ request, .arrive id request ∈ deedsOf handle log
  reached : .reach ∈ deedsOf handle log
  unanswered : ∀ response, .answer response ∉ deedsOf handle log

/-- How the request of an end came to it. -/
inductive Ended (policy : Policy) (log : List Item) (e : End) : Prop
  /-- It was repelled, since another one of its id was open, and did nothing more. -/
  | repelled {id : String} {request : Request} {before after : List Item}
      (split : log = before ++ [.arrive id request, .answer e.response].map (.of e.handle) ++ after)
      (fresh : deedsOf e.handle before = []) (rest : deedsOf e.handle after = [])
      (response : e.response = Coordinator.duplicate id) {other : Nat}
      (twin : Open id other before) : Ended policy log e
  /-- It ended in full, with the callbacks that waited for it, and did nothing more. -/
  | closed {request : Request} {recordedAt : Timestamp} {before after : List Item}
      (split : log = before ++ (closing request.workflowId e.response recordedAt
        (pending e.response.executionId before) e.time).map (.of e.handle) ++ after)
      (rest : deedsOf e.handle after = [])
      (passage : Passage policy request e.response (deedsOf e.handle before))
      (told : e.response.ToldAs (Coordinator.endEvent e.response)) : Ended policy log e

variable {policy : Policy} {executor : Executor} {log more : List Item} {session next : Session}
  {deeds : List Deed} {events : List Event} {world later : World} {response : Response}
  {handle : Nat} {e : End}

namespace Underway

theorem opened (h : Underway session (deedsOf session.handle log)) :
    Open session.id session.handle log := by
  generalize same : deedsOf session.handle log = deeds at h
  refine ⟨⟨session.request, ?_⟩, ?_, fun response => ?_⟩ <;> rw [same] <;> cases h <;>
    simp [admission]

/-- Whoever waits at the gate may be let through. -/
theorem letThrough (h : Underway session deeds) {next : Option Nat}
    (waits : some session.handle = next → session.isQueued = true) :
    Underway (session.letThrough next)
      (deeds ++ if some session.handle = next then [.pass] else []) := by
  unfold Session.letThrough
  split
  · next first =>
    have queued := waits first
    cases h with
    | waits phase status retries => exact .enters rfl status retries
    | enters phase | runs phase =>
      rw [Session.isQueued_eq_false (by simp [phase])] at queued
      cases queued
  · rwa [List.append_nil]

/-- What is told in a run comes after all that was told before. -/
theorem append_tells (id : String) (request : Request) (before events : List Event) :
    admission id request ++ before.map .tell ++ events.map .tell =
      admission id request ++ (before ++ events).map .tell := by
  rw [List.append_assoc, List.map_append]

/-- A session that goes on has told more. -/
theorem speak (h : Underway session.core deeds)
    (speaks : session.Speaks world events (later, .stays next)) (id : next.id = session.id)
    (waits : next.phase ≠ .queued) (begun : next.phase ≠ .admitted) :
    Underway next.core (deeds ++ events.map .tell) := by
  cases speaks with
  | @begins nodes events _ phase tells retold follows =>
    cases follows with
    | stays status request =>
      cases h with
      | enters _ _ retries =>
        have own : session.retries = 0 := retries
        rw [own, ← id] at retold
        have runs := @Underway.runs next.core nodes events waits begun status retold
        simpa only [Session.core, id, request] using runs
      | waits queued => exact absurd (phase.symm.trans queued) nofun
      | runs _ later => exact absurd phase later
  | goesOn through started tells retold follows =>
    cases follows with
    | stays same request =>
      cases h with
      | @runs nodes before _ _ status told =>
        have runs := @Underway.runs next.core nodes _ waits begun (same.trans status)
          (id ▸ told.append retold)
        rw [append_tells, List.cons_append]
        simpa only [Session.core, id, request] using runs
      | waits queued => exact absurd queued through
      | enters admitted => exact absurd admitted started

/-- A session that ends has told all that there was to tell. -/
theorem finish (h : Underway session.core deeds)
    (speaks : session.Speaks world events (later, .ends response)) :
    ∃ all : List Event,
      deeds ++ events.map .tell = admission session.id session.request ++ all.map .tell ∧
      Voiced session.id session.request.workflowId response.retries all ∧
      response.ToldAs (Coordinator.endEvent response) := by
  cases speaks with
  | declines phase unrun told =>
    cases h with
    | enters _ _ retries => exact ⟨[], rfl, unrun retries ▸ .silent, told⟩
    | waits queued => exact absurd (phase.symm.trans queued) nofun
    | runs _ later => exact absurd phase later
  | @begins nodes events _ phase tells retold follows =>
    cases follows with
    | ends told =>
      cases h with
      | enters _ _ retries =>
        have own : session.retries = 0 := retries
        rw [own] at retold
        exact ⟨_, rfl, .started retold, told⟩
      | waits queued => exact absurd (phase.symm.trans queued) nofun
      | runs _ later => exact absurd phase later
  | goesOn through started tells retold follows =>
    cases follows with
    | ends told =>
      cases h with
      | runs _ _ _ before =>
        exact ⟨_, append_tells .., .started (before.append retold), told⟩
      | waits queued => exact absurd queued through
      | enters admitted => exact absurd admitted started

end Underway

/-- What an end came to is not changed by what others do. -/
theorem Ended.append (h : Ended policy log e) (silent : deedsOf e.handle more = []) :
    Ended policy (log ++ more) e := by
  cases h with
  | repelled split fresh rest response twin =>
    refine .repelled (by rw [split, List.append_assoc]) fresh ?_ response twin
    rw [deedsOf_append, rest, silent, List.append_nil]
  | closed split rest passage told =>
    refine .closed (by rw [split, List.append_assoc]) ?_ passage told
    rw [deedsOf_append, rest, silent, List.append_nil]

/-- The request of an end was repelled by one that was open, and nothing came of it. -/
def Repelled (log : List Item) (e : End) : Prop :=
  ∃ id request before other, e.response = Coordinator.duplicate id ∧ before <+: log ∧
    Open id other before ∧ deedsOf e.handle log = [.arrive id request, .answer e.response]

/-- All that the request of an end has done. -/
theorem Ended.deedsOf_cases (h : Ended policy log e) : Repelled log e ∨
    ∃ request recordedAt callbacks before, Passage policy request e.response before ∧
      e.response.ToldAs (Coordinator.endEvent e.response) ∧
      deedsOf e.handle log =
        before ++ closing request.workflowId e.response recordedAt callbacks e.time := by
  cases h with
  | @repelled id request before after split fresh rest response other twin =>
    refine .inl ⟨id, request, before, other, response, ?_, twin, ?_⟩
    · rw [split, List.append_assoc]
      exact List.prefix_append _ _
    · rw [split, deedsOf_append, deedsOf_append, fresh, rest, deedsOf_map_of, List.append_nil,
        List.nil_append]
  | @closed request recordedAt before _ split rest passage told =>
    refine .inr ⟨request, recordedAt, pending e.response.executionId before, _, passage, told, ?_⟩
    rw [split, deedsOf_append, deedsOf_append, rest, deedsOf_map_of, List.append_nil]

namespace Coordinator

/-- The ledger tells how far the request of each session has come, and how each end came about. -/
structure Recounts (policy : Policy) (c : Coordinator) (log : List Item) : Prop where
  gate : ∀ core ∈ c.cores, policy.maxConcurrent ≠ 0
  sessions : ∀ core ∈ c.cores, Underway core (deedsOf core.handle log)
  ends : ∀ e ∈ c.ends, Ended policy log e
  unknown : ∀ handle, handle ∉ c.cores.map Session.handle → handle ∉ c.ends.map End.handle →
    deedsOf handle log = []

variable {rules : Rules} {noted : List Remark} {c later : Coordinator} {core : Session}

namespace Recounts

theorem make (policy : Policy) (executor : Executor) (ids : Nat → String) :
    (make policy executor ids).Recounts policy [] :=
  ⟨fun _ member => absurd member List.not_mem_nil, fun _ member => absurd member List.not_mem_nil,
    fun _ member => absurd member List.not_mem_nil, fun _ _ _ => rfl⟩

/-- No request does anything. -/
theorem frame (h : c.Recounts policy log) (cores : later.cores = c.cores)
    (ends : later.ends = c.ends) (silent : ∀ handle, deedsOf handle more = []) :
    later.Recounts policy (log ++ more) := by
  have same (handle : Nat) : deedsOf handle (log ++ more) = deedsOf handle log := by
    rw [deedsOf_append, silent, List.append_nil]
  refine ⟨fun core member => ?_, fun core member => ?_, fun e member => ?_,
    fun handle unknown unended => ?_⟩
  · exact h.gate core (cores ▸ member)
  · rw [same]
    exact h.sessions core (cores ▸ member)
  · exact (h.ends e (ends ▸ member)).append (silent e.handle)
  · rw [cores] at unknown
    rw [ends] at unended
    rw [same]
    exact h.unknown handle unknown unended

/-- A handle that is new has done nothing. -/
theorem deedsOf_fresh (h : c.Recounts policy log) (fresh : handle ∉ c.numbers) :
    handle ∉ c.cores.map Session.handle ∧ handle ∉ c.ends.map End.handle ∧
      deedsOf handle log = [] := by
  have unknown : handle ∉ c.cores.map Session.handle := by
    rw [handles_cores]
    exact fun member => fresh (List.mem_append_left _ (List.mem_append_left _ member))
  have unended : handle ∉ c.ends.map End.handle := fun member =>
    fresh (List.mem_append_right _ member)
  exact ⟨unknown, unended, h.unknown handle unknown unended⟩

/-- One request does something, and at most one other passes the gate. -/
theorem act (h : c.Recounts policy log) (sound : c.Sound) (own : Nat) (next : Option Nat)
    (waits : ∀ handle, some handle = next →
      ∃ core ∈ c.cores, core.handle = handle ∧ core.isQueued = true)
    (silent : ∀ handle, handle ≠ own →
      deedsOf handle more = if some handle = next then [.pass] else [])
    (sessions : ∀ core ∈ later.cores,
      (∃ old ∈ c.cores, old.handle ≠ own ∧ core = old.letThrough next) ∨
        core.handle = own ∧ policy.maxConcurrent ≠ 0 ∧ Underway core (deedsOf own (log ++ more)))
    (ends : ∀ e ∈ later.ends,
      e ∈ c.ends ∧ e.handle ≠ own ∨ e.handle = own ∧ Ended policy (log ++ more) e)
    (known : own ∈ later.cores.map Session.handle ∨ own ∈ later.ends.map End.handle)
    (others : ∀ core ∈ c.cores, core.handle ≠ own → core.handle ∈ later.cores.map Session.handle)
    (ended : c.ends.map End.handle ⊆ later.ends.map End.handle) :
    later.Recounts policy (log ++ more) := by
  have quiet {handle : Nat} (other : handle ≠ own)
      (unknown : ∀ core ∈ c.cores, core.handle ≠ handle) : deedsOf handle more = [] := by
    rw [silent handle other, if_neg fun first => ?_]
    obtain ⟨core, member, same, -⟩ := waits handle first
    exact unknown core member same
  refine ⟨fun core member => ?_, fun core member => ?_, fun e member => ?_,
    fun handle unknown unended => ?_⟩
  · rcases sessions core member with ⟨old, before, -⟩ | ⟨-, gate, -⟩
    · exact h.gate old before
    · exact gate
  · rcases sessions core member with ⟨old, before, other, rfl⟩ | ⟨same, -, underway⟩
    · rw [Session.handle_letThrough, deedsOf_append, silent _ other]
      refine (h.sessions old before).letThrough fun first => ?_
      obtain ⟨twin, inside, same, queued⟩ := waits _ first
      rwa [← List.inj_on_of_nodup_map sound.nodup_cores inside before same]
    · rwa [same]
  · rcases ends e member with ⟨before, other⟩ | ⟨-, done⟩
    · refine (h.ends e before).append (quiet other fun core inside same => ?_)
      obtain ⟨session, among, rfl⟩ := List.mem_map.1 inside
      exact sound.handle_ne_end among before same
    · exact done
  · have other : handle ≠ own := by
      rintro rfl
      exact known.elim unknown unended
    have absent (core : Session) (inside : core ∈ c.cores) : core.handle ≠ handle := by
      rintro rfl
      exact unknown (others core inside other)
    have before : handle ∉ c.cores.map Session.handle := fun member =>
      let ⟨core, inside, same⟩ := List.mem_map.1 member
      absent core inside same
    rw [deedsOf_append, quiet other absent, List.append_nil]
    exact h.unknown handle before fun member => unended (ended member)

/-- One request does something, and the others do nothing. -/
theorem actAlone (h : c.Recounts policy log) (sound : c.Sound) (own : Nat)
    (sessions : ∀ core ∈ later.cores,
      (core ∈ c.cores ∧ core.handle ≠ own) ∨ core.handle = own ∧ policy.maxConcurrent ≠ 0 ∧
        Underway core (deedsOf own (log ++ deeds.map (.of own))))
    (ends : ∀ e ∈ later.ends, e ∈ c.ends ∧ e.handle ≠ own ∨
      e.handle = own ∧ Ended policy (log ++ deeds.map (.of own)) e)
    (known : own ∈ later.cores.map Session.handle ∨ own ∈ later.ends.map End.handle)
    (others : ∀ core ∈ c.cores, core.handle ≠ own → core.handle ∈ later.cores.map Session.handle)
    (ended : c.ends.map End.handle ⊆ later.ends.map End.handle) :
    later.Recounts policy (log ++ deeds.map (.of own)) := by
  refine h.act sound own none nofun (fun handle other => ?_) (fun core member => ?_) ends known
    others ended
  · rw [deedsOf_map_of_ne other.symm, if_neg nofun]
  · refine (sessions core member).imp_left fun ⟨inside, other⟩ => ⟨core, inside, other, ?_⟩
    exact core.letThrough_none.symm

/-- A request becomes a session. -/
theorem welcome (h : c.Recounts policy log) (sound : c.Sound) (core : Session)
    (fresh : core.handle ∉ c.numbers) (gate : policy.maxConcurrent ≠ 0)
    (cores : later.cores = c.cores ++ [core]) (ends : later.ends = c.ends)
    (underway : Underway core deeds) :
    later.Recounts policy (log ++ deeds.map (.of core.handle)) := by
  obtain ⟨unknown, unended, none⟩ := h.deedsOf_fresh fresh
  refine h.actAlone sound core.handle (fun s member => ?_) (fun e member => .inl ?_) (.inl ?_)
    (fun s member _ => ?_) ?_
  · rw [cores] at member
    rcases List.mem_append.1 member with member | member
    · exact .inl ⟨member, fun same => unknown (same ▸ List.mem_map_of_mem member)⟩
    · cases List.mem_singleton.1 member
      rw [deedsOf_append, none, deedsOf_map_of]
      exact .inr ⟨rfl, gate, underway⟩
  · rw [ends] at member
    exact ⟨member, fun same => unended (same ▸ List.mem_map_of_mem member)⟩
  · rw [cores]
    exact List.mem_map_of_mem (List.mem_append_right _ List.mem_cons_self)
  · rw [cores]
    exact List.mem_map_of_mem (List.mem_append_left _ member)
  · rw [ends]
    exact List.Subset.refl _

/-- A request ends without a session. -/
theorem dismiss (h : c.Recounts policy log) (sound : c.Sound) (e : End)
    (fresh : e.handle ∉ c.numbers) (cores : later.cores = c.cores)
    (ends : later.ends = c.ends ++ [e])
    (done : Ended policy (log ++ deeds.map (.of e.handle)) e) :
    later.Recounts policy (log ++ deeds.map (.of e.handle)) := by
  obtain ⟨unknown, unended, -⟩ := h.deedsOf_fresh fresh
  refine h.actAlone sound e.handle (fun s member => .inl ?_) (fun other member => ?_) (.inr ?_)
    (fun s member _ => ?_) ?_
  · rw [cores] at member
    exact ⟨member, fun same => unknown (same ▸ List.mem_map_of_mem member)⟩
  · rw [ends] at member
    rcases List.mem_append.1 member with member | member
    · exact .inl ⟨member, fun same => unended (same ▸ List.mem_map_of_mem member)⟩
    · cases List.mem_singleton.1 member
      exact .inr ⟨rfl, done⟩
  · rw [ends]
    exact List.mem_map_of_mem (List.mem_append_right _ List.mem_cons_self)
  · rw [cores]
    exact List.mem_map_of_mem member
  · rw [ends, List.map_append]
    exact List.subset_append_left _ _

/-- A session goes on. -/
theorem goOn (h : c.Recounts policy log) (sound : c.Sound) (member : session ∈ c.sessions)
    (next : Session) (same : next.handle = session.handle)
    (cores : later.cores = c.cores.map fun s => if s.handle = next.handle then next else s)
    (ends : later.ends = c.ends)
    (underway : Underway next (deedsOf session.handle log ++ deeds)) :
    later.Recounts policy (log ++ deeds.map (.of session.handle)) := by
  have inside : session.core ∈ c.cores := List.mem_map_of_mem member
  have place {old : Session} (before : old ∈ c.cores) :
      old.handle ∈ later.cores.map Session.handle := by
    rw [cores, List.map_map]
    refine List.mem_map.2 ⟨old, before, ?_⟩
    dsimp only [Function.comp]
    split
    · next twin => exact twin.symm
    · rfl
  refine h.actAlone sound session.handle (fun s among => ?_) (fun e ended => .inl ?_)
    (.inl (@place session.core inside)) (fun s before _ => place before) ?_
  · rw [cores] at among
    obtain ⟨old, before, rfl⟩ := List.mem_map.1 among
    split
    · rw [deedsOf_append, deedsOf_map_of]
      exact .inr ⟨same, h.gate _ inside, underway⟩
    · next other =>
      rw [same] at other
      exact .inl ⟨before, other⟩
  · rw [ends] at ended
    exact ⟨ended, (sound.handle_ne_end member ended).symm⟩
  · rw [ends]
    exact List.Subset.refl _

/-- A session ends, and whoever waits first at the gate passes it. -/
theorem conclude (h : c.Recounts policy log) (sound : c.Sound) (member : session ∈ c.sessions)
    (next : Option Nat) (waits : ∀ handle, some handle = next →
      ∃ core ∈ c.cores, core.handle = handle ∧ core.isQueued = true)
    (e : End) (own : e.handle = session.handle)
    (cores : later.cores =
      (c.cores.map (Session.letThrough next)).filter fun s => s.handle ≠ session.handle)
    (ends : later.ends = c.ends ++ [e])
    (done : Ended policy (log ++ more) e) (silent : ∀ handle, handle ≠ session.handle →
      deedsOf handle more = if some handle = next then [.pass] else []) :
    later.Recounts policy (log ++ more) := by
  refine h.act sound session.handle next waits silent (fun s among => .inl ?_)
    (fun other ended => ?_) (.inr ?_) (fun s before other => ?_) ?_
  · rw [cores] at among
    obtain ⟨among, other⟩ := List.mem_filter.1 among
    obtain ⟨old, before, rfl⟩ := List.mem_map.1 among
    rw [Session.handle_letThrough] at other
    exact ⟨old, before, of_decide_eq_true other, rfl⟩
  · rw [ends] at ended
    rcases List.mem_append.1 ended with ended | ended
    · exact .inl ⟨ended, (sound.handle_ne_end member ended).symm⟩
    · cases List.mem_singleton.1 ended
      exact .inr ⟨own, done⟩
  · rw [ends, ← own]
    exact List.mem_map_of_mem (List.mem_append_right _ List.mem_cons_self)
  · rw [cores, ← s.handle_letThrough next]
    refine List.mem_map_of_mem (List.mem_filter.2 ⟨List.mem_map_of_mem before, ?_⟩)
    rw [Session.handle_letThrough]
    exact decide_eq_true other
  · rw [ends, List.map_append]
    exact List.subset_append_left _ _

/-- A request for which there is no gate has ended as it should. -/
theorem refused (h : c.Recounts policy log) (outlets : c.Outlets log) (fresh : handle ∉ c.numbers)
    (request : Request) (shut : policy.maxConcurrent = 0) :
    Ended policy
      (log ++ (.arrive (c.nameFor handle request) request ::
        c.parting request.workflowId (shutOut (c.nameFor handle request))).map (.of handle))
      ⟨handle, c.world.now, shutOut (c.nameFor handle request)⟩ := by
  obtain ⟨-, -, none⟩ := h.deedsOf_fresh fresh
  let response : Response := shutOut (c.nameFor handle request)
  let before : List Item := log ++ [.of handle (.arrive response.executionId request)]
  have split : log ++ (.arrive response.executionId request ::
        c.parting request.workflowId response).map (.of handle) =
      before ++ (closing request.workflowId response c.recordTime
        (pending response.executionId before) c.world.now).map (.of handle) ++ [] := by
    rw [pending_append_singleton, List.append_nil, List.append_assoc, parting, outlets.callbacks]
    rfl
  refine .closed split rfl ?_ (Response.toldAs_of_failed (.inl rfl) rfl rfl)
  have arrived : deedsOf handle before = [.arrive response.executionId request] := by
    rw [deedsOf_append, none]
    exact deedsOf_map_of handle [.arrive response.executionId request]
  exact arrived ▸ .refused shut rfl

/-- A request with the id of a session has ended as it should. -/
theorem repelled (h : c.Recounts policy log) (fresh : handle ∉ c.numbers) (request : Request)
    (known : (c.find? (c.nameFor handle request)).isSome = true) :
    Ended policy
      (log ++ [.arrive (c.nameFor handle request) request,
        .answer (duplicate (c.nameFor handle request))].map (.of handle))
      ⟨handle, c.world.now, duplicate (c.nameFor handle request)⟩ := by
  obtain ⟨-, -, none⟩ := h.deedsOf_fresh fresh
  obtain ⟨twin, found⟩ := Option.isSome_iff_exists.1 known
  have member : twin.core ∈ c.cores := List.mem_map_of_mem (List.mem_of_find?_eq_some found)
  have own : twin.id = c.nameFor handle request := by simpa using List.find?_some found
  exact .repelled (List.append_nil _).symm none rfl rfl (own ▸ (h.sessions _ member).opened)

/-- A session that ends, ends as it should. -/
theorem served (h : c.Recounts policy log) (sound : c.Sound) (gate : c.Gate policy log)
    (outlets : c.Outlets log) (member : session ∈ c.sessions) {world : World} {response : Response}
    {deaf : Bool} (steps : c.Steps session deaf (world, .ends response)) {events : List Event}
    (speaks : session.Speaks c.world events (world, .ends response)) :
    Ended policy
      (log ++ ((events.map .tell).map (.of session.handle) ++
        c.queue.head?.toList.map (fun handle => .of handle .pass) ++
        (parting { c with world := world } session.request.workflowId response).map
          (.of session.handle)))
      ⟨session.handle, world.now, response⟩ := by
  have inside : session.core ∈ c.cores := List.mem_map_of_mem member
  obtain ⟨all, told, voiced, known⟩ := (h.sessions _ inside).finish speaks
  let before : List Item := log ++ ((events.map .tell).map (.of session.handle) ++
    c.queue.head?.toList.map fun handle => .of handle .pass)
  have same : response.executionId = session.id := by
    cases (steps.goes_deaf (sound.sessions session member)).comes with
    | ends own => exact own
  -- Whoever ends is through the gate, so it is another one that passes it now.
  have apart : ¬some session.handle = c.queue.head? := fun first => by
    obtain ⟨core, among, twin, queued⟩ := gate.exists_core (List.mem_of_head? first.symm)
    rw [sound.core_eq member among twin, Session.isQueued_core,
      Session.isQueued_eq_false steps.phase_ne] at queued
    cases queued
  have unsaved : pending response.executionId before = pending response.executionId log := by
    rw [pending_of_unsaved, registered_append, registered_map_of, registered_pass,
      List.append_nil, List.append_nil]
    rw [gathered_append, gathered_map_of, record?_tells, gathered_pass rfl]
    exact fun _ => nofun
  have split : log ++ ((events.map .tell).map (.of session.handle) ++
        c.queue.head?.toList.map (fun handle => .of handle .pass) ++
        (parting { c with world := world } session.request.workflowId response).map
          (.of session.handle)) =
      before ++ (closing session.request.workflowId response
        (recordTime { c with world := world }) (pending response.executionId before)
        world.now).map (.of session.handle) ++ [] := by
    rw [unsaved, ← outlets.callbacks, List.append_nil, ← List.append_assoc]
    rfl
  have course : deedsOf session.handle before =
      admission response.executionId session.request ++ all.map .tell := by
    rw [deedsOf_append, deedsOf_append, deedsOf_map_of, deedsOf_pass, if_neg apart,
      List.append_nil, same]
    exact told
  exact .closed split rfl (course ▸ .served (h.gate _ inside) (same ▸ voiced)) known

theorem does (h : c.Recounts policy log) (sound : c.Sound) (gate : c.Gate policy log)
    (outlets : c.Outlets log) (does : Does rules c noted more later) :
    later.Recounts policy (log ++ more) := by
  cases does with
  | receive | line | leave | pass => exact h.frame rfl rfl fun _ => rfl
  | cancel id =>
    have kept := Kept.cancel sound id
    exact h.frame kept.cores kept.ends fun _ => rfl
  | register added =>
    cases register_ok added
    exact h.frame rfl rfl fun _ => rfl
  | @refuse handle fresh given request shut =>
    have ended := h.refused outlets fresh request (gate.follows ▸ shut)
    exact h.dismiss sound ⟨handle, c.world.now, _⟩ fresh rfl rfl ended
  | @repel handle fresh given request open_ known =>
    exact h.dismiss sound ⟨handle, c.world.now, _⟩ fresh rfl rfl (h.repelled fresh request known)
  | queue fresh given request open_ =>
    exact h.welcome sound (Session.core (c.newcomer _ _ _ _)) fresh (gate.follows ▸ open_)
      List.map_append rfl (.waits rfl rfl rfl)
  | enter fresh given request open_ =>
    exact h.welcome sound (Session.core (c.newcomer _ _ _ _)) fresh (gate.follows ▸ open_)
      List.map_append rfl (.enters rfl rfl rfl)
  | @goOn session next member deaf world steps events speaks =>
    have goes := steps.goes_deaf (sound.sessions session member)
    have kept := kept_stays sound member goes
    have underway := h.sessions _ (List.mem_map_of_mem (f := Session.core) member)
    cases goes.comes with
    | stays handle id cancelled through begun =>
      exact h.goOn sound member next.core handle (kept.cores.trans (cores_replace _ next)) kept.ends
        (underway.speak speaks id through begun)
  | @conclude session member deaf world response steps events speaks =>
    have goes := steps.goes_deaf (sound.sessions session member)
    obtain ⟨-, -, -, -, cores, -, -, -, ends⟩ := parted_ends sound member goes
    have waits (handle : Nat) (first : some handle = c.queue.head?) :
        ∃ core ∈ c.cores, core.handle = handle ∧ core.isQueued = true :=
      gate.exists_core (List.mem_of_head? first.symm)
    refine h.conclude sound member c.queue.head? waits ⟨session.handle, world.now, response⟩ rfl
      cores ends (h.served sound gate outlets member steps speaks) fun handle other => ?_
    rw [deedsOf_append, deedsOf_append, deedsOf_pass, deedsOf_map_of_ne other.symm,
      deedsOf_map_of_ne other.symm, List.append_nil, List.nil_append]

end Recounts

theorem Ledger.recounts (h : Ledger policy executor c log) : c.Recounts policy log :=
  h.induction (fun ids => .make policy executor ids) fun before recounts does =>
    recounts.does before.sound before.gate before.outlets does

end Coordinator

end Stepwise
