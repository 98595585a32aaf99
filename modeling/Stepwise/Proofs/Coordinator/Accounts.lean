import Stepwise.Proofs.Coordinator.History
import Stepwise.Proofs.Coordinator.Rest
import Stepwise.Proofs.Coordinator.Trials

/-!
# Accounts

What is noted of a coordinator accounts for all its sessions and all its ends (`Agrees`). A session
that goes on keeps to its own notes (`Tells.settles`), and to all others it only happens that they
are let through the gate or cancelled (`Leaves`). So the account holds in every chronicle
(`Chronicle.agrees`).
-/

namespace Stepwise

/-- The record that was saved last is found. -/
@[simp] theorem Repository.get?_save (repository : Repository) (record : ExecutionRecord) :
    (repository.save record).get? record.executionId = some record := by
  have others : List.find? (fun r => decide (r.executionId = record.executionId))
      (repository.records.filter fun r => r.executionId ≠ record.executionId) = none := by
    refine List.find?_eq_none.2 fun other member same => ?_
    exact of_decide_eq_true (List.mem_filter.1 member).2 (of_decide_eq_true same)
  rw [get?, save, List.find?_append, others, List.find?_singleton, if_pos (decide_eq_true rfl)]
  rfl

namespace Coordinator

/-- The queue holds the handles of sessions that wait at the gate, and each of them once. -/
structure Queued (c : Coordinator) : Prop where
  distinct : c.queue.Nodup
  waiting : ∀ session ∈ c.sessions, session.handle ∈ c.queue → session.phase = .queued
  known : c.queue ⊆ c.sessions.map Session.handle

/-- A coordinator goes on with what is left of its sessions. -/
structure Leaves (reason : String → Prop) (c later : Coordinator) : Prop where
  policy : later.policy = c.policy
  executor : later.executor = c.executor
  ends : later.ends = c.ends
  tickets : c.world.tickets ≤ later.world.tickets
  queue : later.queue ⊆ c.queue
  handles : later.sessions.map Session.handle = c.sessions.map Session.handle
  sessions : ∀ next ∈ later.sessions, ∃ session ∈ c.sessions, session.Left reason next
  queued : c.Queued → later.Queued

variable {policy : Policy} {executor : Executor} {reason : String → Prop}
  {c middle later : Coordinator} {session : Session} {id : String} {log more : List Remark}

/-! ## What is left of sessions -/

@[simp] theorem handles_replace (c : Coordinator) (next : Session) :
    (c.replace next).sessions.map Session.handle = c.sessions.map Session.handle := by
  rw [replace, List.map_map]
  refine List.map_congr_left fun s _ => ?_
  dsimp only [Function.comp]
  split
  · next same => exact same.symm
  · rfl

namespace Leaves

/-- Nothing has been done to the sessions. -/
theorem of_eq (policy : later.policy = c.policy) (executor : later.executor = c.executor)
    (ends : later.ends = c.ends) (tickets : c.world.tickets ≤ later.world.tickets)
    (queue : later.queue = c.queue) (sessions : later.sessions = c.sessions) :
    Leaves reason c later := by
  refine ⟨policy, executor, ends, tickets, queue ▸ List.Subset.refl _, congrArg _ sessions,
    fun next member => ⟨next, sessions ▸ member, .refl next⟩, fun queued => ⟨?_, ?_, ?_⟩⟩
  · rw [queue]
    exact queued.distinct
  · rw [queue, sessions]
    exact queued.waiting
  · rw [queue, sessions]
    exact queued.known

theorem trans (first : Leaves reason c middle) (second : Leaves reason middle later) :
    Leaves reason c later := by
  refine ⟨second.policy.trans first.policy, second.executor.trans first.executor,
    second.ends.trans first.ends, Nat.le_trans first.tickets second.tickets,
    List.Subset.trans second.queue first.queue, second.handles.trans first.handles,
    fun next member => ?_, fun queued => second.queued (first.queued queued)⟩
  obtain ⟨session, inside, left⟩ := second.sessions next member
  obtain ⟨old, among, before⟩ := first.sessions session inside
  exact ⟨old, among, before.trans left⟩

theorem cancel (c : Coordinator) (asked : reason id) : Leaves reason c (c.cancel id).2 := by
  unfold Coordinator.cancel
  split
  · exact .of_eq rfl rfl rfl (Nat.le_refl _) rfl rfl
  · next session found =>
    have member : session ∈ c.sessions := List.mem_of_find?_eq_some found
    have own : session.id = id := by simpa using List.find?_some found
    have replaced : Leaves reason c (c.replace (session.cancel c.world.now)) := by
      have sessions (next : Session)
          (inside : next ∈ (c.replace (session.cancel c.world.now)).sessions) :
          ∃ old ∈ c.sessions, old.Left reason next ∧ next.phase = old.phase := by
        obtain ⟨old, among, rfl⟩ := List.mem_map.1 inside
        split
        · exact ⟨session, member, .cancel session (own.symm ▸ asked) _, rfl⟩
        · exact ⟨old, among, .refl old, rfl⟩
      refine ⟨rfl, rfl, rfl, Nat.le_refl _, List.Subset.refl _, handles_replace _ _,
        fun next inside => ?_, fun queued => ⟨queued.distinct, fun next inside waits => ?_, ?_⟩⟩
      · obtain ⟨old, among, left, -⟩ := sessions next inside
        exact ⟨old, among, left⟩
      · obtain ⟨old, among, left, same⟩ := sessions next inside
        rw [same]
        exact queued.waiting old among (left.handle ▸ waits)
      · rw [handles_replace]
        exact queued.known
    dsimp only
    split
    · exact replaced.trans (.of_eq rfl rfl rfl (Nat.le_refl _) rfl rfl)
    · exact replaced

theorem grantRequests (granted : ∀ id ∈ c.world.requests, reason id) :
    Leaves reason c c.grantRequests :=
  grantRequests_induction (.of_eq rfl rfl rfl (Nat.le_refl _) rfl rfl) fun middle id asked leaves =>
    leaves.trans (.cancel middle (granted id asked))

theorem release (queued : c.Queued) : Leaves reason c c.release := by
  unfold Coordinator.release
  split
  · exact .of_eq rfl rfl rfl (Nat.le_refl _) rfl rfl
  · next handle rest queue =>
    obtain ⟨distinct, waiting, known⟩ := queued
    rw [queue] at distinct waiting known
    refine ⟨rfl, rfl, rfl, Nat.le_refl _, queue ▸ List.subset_cons_self _ _, ?_, fun next member => ?_,
      fun _ => ⟨(List.nodup_cons.1 distinct).2, fun next member waits => ?_, ?_⟩⟩
    · dsimp only [wake]
      rw [List.map_map]
      refine List.map_congr_left fun s _ => ?_
      dsimp only [Function.comp]
      split <;> rfl
    · obtain ⟨old, among, rfl⟩ := List.mem_map.1 member
      refine ⟨old, among, ?_⟩
      split
      · next first => exact .pass (waiting old among (first ▸ List.mem_cons_self))
      · exact .refl old
    · obtain ⟨old, among, rfl⟩ := List.mem_map.1 member
      split at waits
      · next first => exact absurd (first ▸ waits) (List.nodup_cons.1 distinct).1
      · next other =>
        rw [if_neg other]
        exact waiting old among (List.mem_cons_of_mem _ waits)
    · intro other member
      obtain ⟨s, among, rfl⟩ := List.mem_map.1 (known (List.mem_cons_of_mem _ member))
      refine List.mem_map.2 ⟨_, List.mem_map_of_mem among, ?_⟩
      split <;> rfl

end Leaves

/-! ## What the notes account for -/

/-- What is known of a session from what was noted. -/
structure Accounted (policy : Policy) (executor : Executor) (world : World) (log : List Remark)
    (session : Session) : Prop where
  cancelled : session.cancelled = true → .cancel session.id ∈ log
  told : ∃ taken : Session, taken.id = session.id ∧ taken.request = session.request ∧
    Told ⟨executor, policy.defaults⟩ policy taken world session session.phase
      (notesOf session.handle log)

/-- What is known of an end from the notes of its request: that was refused, or it was taken and
answered. -/
inductive Answered (policy : Policy) (executor : Executor) (log : List Remark) (e : End) :
    List Note → Prop
  | refused : Answered policy executor log e []
  | answered {taken : Session} {before : List Note} (own : taken.id = e.response.executionId)
      (closed : Closed ⟨executor, policy.defaults⟩ policy taken (.cancel taken.id ∈ log) e.response
        before) {workflowId : String} {time : Timestamp} :
      Answered policy executor log e
        (before ++ [.answered e.response (some (.ofResponse workflowId e.response time))])

/-- What was noted of a coordinator accounts for it. -/
structure Agrees (policy : Policy) (executor : Executor) (c : Coordinator) (log : List Remark) :
    Prop where
  follows : c.policy = policy
  uses : c.executor = executor
  queued : c.Queued
  sessions : ∀ session ∈ c.sessions, Accounted policy executor c.world log session
  ends : ∀ e ∈ c.ends, Answered policy executor log e (notesOf e.handle log)
  unknown : ∀ handle, handle ∉ c.sessions.map Session.handle → handle ∉ c.ends.map End.handle →
    notesOf handle log = []

variable {world before after : World} {next : Session} {e : End}

/-- What is known of a session is known of what others leave of it. -/
theorem Accounted.left (h : Accounted policy executor before log session)
    (left : session.Left (fun id => .cancel id ∈ log ++ more) next)
    (silent : notesOf session.handle more = []) (tickets : before.tickets ≤ after.tickets)
    (ahead : ∀ plan ticket due, session.phase = .pausing plan ticket due → before.now ≤ due →
      after.now ≤ due) : Accounted policy executor after (log ++ more) next := by
  obtain ⟨taken, id, request, told⟩ := h.told
  refine ⟨fun dead => ?_, taken, id.trans left.id.symm, request.trans left.request.symm, ?_⟩
  · rw [left.id]
    exact (left.cancelled dead).elim (fun dead => List.mem_append_left _ (h.cancelled dead))
      fun asked => asked
  · rw [notesOf_append, left.handle, silent, List.append_nil]
    exact told.left left tickets ahead

theorem Answered.left {notes : List Note} (h : Answered policy executor log e notes) :
    Answered policy executor (log ++ more) e notes := by
  cases h with
  | refused => exact .refused
  | answered own closed => exact .answered own (closed.mono (List.mem_append_left _))

theorem agrees_make (policy : Policy) (executor : Executor) (ids : Nat → String) :
    (make policy executor ids).Agrees policy executor [] := by
  have queued : (make policy executor ids).Queued :=
    ⟨List.nodup_nil, fun _ member => absurd member List.not_mem_nil, List.nil_subset _⟩
  exact ⟨rfl, rfl, queued, fun _ member => absurd member List.not_mem_nil,
    fun _ member => absurd member List.not_mem_nil, fun _ _ _ => rfl⟩

namespace Agrees

/-- A coordinator goes on with what is left of its sessions, and nothing is noted of any request. -/
theorem leaves (h : c.Agrees policy executor log)
    (leaves : Leaves (fun id => .cancel id ∈ log ++ more) c later)
    (silent : ∀ handle, notesOf handle more = [])
    (ahead : ∀ session ∈ c.sessions, ∀ plan ticket due, session.phase = .pausing plan ticket due →
      c.world.now ≤ due → later.world.now ≤ due) : later.Agrees policy executor (log ++ more) := by
  refine ⟨leaves.policy.trans h.follows, leaves.executor.trans h.uses, leaves.queued h.queued,
    fun next member => ?_, fun e member => ?_, fun handle unknown unended => ?_⟩
  · obtain ⟨session, inside, left⟩ := leaves.sessions next member
    exact (h.sessions session inside).left left (silent _) leaves.tickets
      (ahead session inside)
  · rw [notesOf_append, silent, List.append_nil]
    exact (h.ends e (leaves.ends ▸ member)).left
  · rw [leaves.handles] at unknown
    rw [leaves.ends] at unended
    rw [notesOf_append, silent, List.append_nil]
    exact h.unknown handle unknown unended

/-- A request ends of which nothing was noted. -/
theorem refuse (h : c.Agrees policy executor log) (fresh : e.handle ∉ c.numbers)
    (follows : later.policy = c.policy) (uses : later.executor = c.executor)
    (sessions : later.sessions = c.sessions) (queue : later.queue = c.queue)
    (ends : later.ends = c.ends ++ [e]) (tickets : later.world.tickets = c.world.tickets)
    (now : later.world.now = c.world.now) : later.Agrees policy executor log := by
  have apart : e.handle ∉ c.sessions.map Session.handle ∧ e.handle ∉ c.ends.map End.handle :=
    ⟨fun member => fresh (List.mem_append_left _ (List.mem_append_left _ member)),
      fun member => fresh (List.mem_append_right _ member)⟩
  refine ⟨follows.trans h.follows, uses.trans h.uses, ?_, fun session member => ?_,
    fun other member => ?_, fun handle unknown unended => ?_⟩
  · obtain ⟨distinct, waiting, known⟩ := h.queued
    refine ⟨?_, ?_, ?_⟩
    · rw [queue]
      exact distinct
    · rw [queue, sessions]
      exact waiting
    · rw [queue, sessions]
      exact known
  · rw [sessions] at member
    have kept := (h.sessions session member).left (.refl session) (notesOf_nil _)
      (Nat.le_of_eq tickets.symm) fun _ _ _ _ early => now ▸ early
    rwa [List.append_nil] at kept
  · rw [ends] at member
    rcases List.mem_append.1 member with member | member
    · exact h.ends other member
    · cases List.mem_singleton.1 member
      rw [h.unknown _ apart.1 apart.2]
      exact .refused
  · rw [sessions] at unknown
    rw [ends, List.map_append] at unended
    exact h.unknown handle unknown fun member => unended (List.mem_append_left _ member)

/-- A request becomes a session, which is noted. -/
theorem welcome (h : c.Agrees policy executor log) (session : Session)
    (fresh : session.handle ∉ c.numbers)
    (follows : later.policy = c.policy) (uses : later.executor = c.executor)
    (sessions : later.sessions = c.sessions ++ [session]) (ends : later.ends = c.ends)
    (world : later.world = c.world) (live : session.cancelled = false)
    (told : Told ⟨executor, policy.defaults⟩ policy session c.world session session.phase
      [.taken session])
    (queue : later.queue = c.queue ∨
      session.phase = .queued ∧ later.queue = c.queue ++ [session.handle]) :
    later.Agrees policy executor (log ++ [.of session.handle (.taken session)]) := by
  have unknown : session.handle ∉ c.sessions.map Session.handle := fun member =>
    fresh (List.mem_append_left _ (List.mem_append_left _ member))
  have unended : session.handle ∉ c.ends.map End.handle := fun member =>
    fresh (List.mem_append_right _ member)
  have unqueued : session.handle ∉ c.queue := fun member => unknown (h.queued.known member)
  have own : notesOf session.handle [.of session.handle (.taken session)] = [.taken session] :=
    notesOf_map_of session.handle [.taken session]
  have silent {handle : Nat} (other : handle ≠ session.handle) :
      notesOf handle [.of session.handle (.taken session)] = [] :=
    notesOf_map_of_ne other.symm [.taken session]
  refine ⟨follows.trans h.follows, uses.trans h.uses, ⟨?_, fun s member waits => ?_, ?_⟩,
    fun s member => ?_, fun e member => ?_, fun handle unknown' unended' => ?_⟩
  · rcases queue with queue | ⟨-, queue⟩
    · rw [queue]
      exact h.queued.distinct
    · rw [queue]
      exact h.queued.distinct.append (List.nodup_singleton _) (by simpa using unqueued)
  · rw [sessions] at member
    rcases List.mem_append.1 member with member | member
    · refine h.queued.waiting s member ?_
      rcases queue with queue | ⟨-, queue⟩
      · rwa [queue] at waits
      · rw [queue] at waits
        refine (List.mem_append.1 waits).resolve_right fun last => unknown ?_
        rw [← List.mem_singleton.1 last]
        exact List.mem_map_of_mem member
    · cases List.mem_singleton.1 member
      rcases queue with queue | ⟨queued, -⟩
      · rw [queue] at waits
        exact absurd waits unqueued
      · exact queued
  · rw [sessions, List.map_append]
    rcases queue with queue | ⟨-, queue⟩
    · rw [queue]
      exact List.subset_append_of_subset_left _ h.queued.known
    · rw [queue]
      exact List.append_subset.2 ⟨List.subset_append_of_subset_left _ h.queued.known,
        List.subset_append_right _ _⟩
  · rw [sessions] at member
    rw [world]
    rcases List.mem_append.1 member with member | member
    · have other : s.handle ≠ session.handle := fun same =>
        unknown (same ▸ List.mem_map_of_mem member)
      exact (h.sessions s member).left (.refl s) (silent other) (Nat.le_refl _)
        fun _ _ _ _ early => early
    · cases List.mem_singleton.1 member
      refine ⟨fun dead => ?_, session, rfl, rfl, ?_⟩
      · rw [live] at dead
        cases dead
      · rw [notesOf_append, h.unknown _ unknown unended, own]
        exact told
  · rw [ends] at member
    have other : e.handle ≠ session.handle := fun same =>
      unended (same ▸ List.mem_map_of_mem member)
    rw [notesOf_append, silent other, List.append_nil]
    exact (h.ends e member).left
  · rw [sessions, List.map_append] at unknown'
    rw [ends] at unended'
    have other : handle ≠ session.handle := fun same =>
      unknown' (List.mem_append_right _ (same ▸ List.mem_cons_self))
    rw [notesOf_append, silent other, List.append_nil]
    exact h.unknown handle (fun member => unknown' (List.mem_append_left _ member)) unended'

end Agrees

/-! ## Steps -/

namespace Agrees

variable {notes : List Note} {p : World × Move}

/-- A session that is through the gate has no place in the queue. -/
theorem notMem_queue (h : c.Agrees policy executor log) (member : session ∈ c.sessions)
    (through : session.phase ≠ .queued) : session.handle ∉ c.queue := fun waits =>
  through (h.queued.waiting session member waits)

/-- A session that is through the gate has gone on, with what is noted. -/
theorem replace (h : c.Agrees policy executor log) (sound : c.Sound) (member : session ∈ c.sessions)
    (through : session.phase ≠ .queued) (handle : next.handle = session.handle)
    (accounted : Accounted policy executor c.world (log ++ notes.map (.of session.handle)) next) :
    (c.replace next).Agrees policy executor (log ++ notes.map (.of session.handle)) := by
  have unqueued := h.notMem_queue member through
  refine ⟨h.follows, h.uses, ⟨h.queued.distinct, fun s inside waits => ?_, ?_⟩, fun s inside => ?_,
    fun e ended => ?_, fun other unknown unended => ?_⟩
  · obtain ⟨old, among, rfl⟩ := List.mem_map.1 inside
    split at waits
    · exact absurd (handle ▸ waits) unqueued
    · next other =>
      rw [if_neg other]
      exact h.queued.waiting old among waits
  · rw [handles_replace]
    exact h.queued.known
  · obtain ⟨old, among, rfl⟩ := List.mem_map.1 inside
    split
    · exact accounted
    · next other =>
      rw [handle] at other
      exact (h.sessions old among).left (.refl old)
        (notesOf_map_of_ne (fun same => other same.symm) notes) (Nat.le_refl _)
        fun _ _ _ _ early => early
  · rw [notesOf_append, notesOf_map_of_ne (sound.handle_ne_end member ended), List.append_nil]
    exact (h.ends e ended).left
  · rw [handles_replace] at unknown
    have apart : session.handle ≠ other := fun same =>
      unknown (same ▸ List.mem_map_of_mem member)
    rw [notesOf_append, notesOf_map_of_ne apart, List.append_nil]
    exact h.unknown other unknown unended

/-- A session that is through the gate has ended, with what is noted. -/
theorem retire (h : c.Agrees policy executor log) (e : End) (unqueued : e.handle ∉ c.queue)
    (unended : e.handle ∉ c.ends.map End.handle) (follows : later.policy = c.policy)
    (uses : later.executor = c.executor)
    (sessions : later.sessions = c.sessions.filter fun s => s.handle ≠ e.handle)
    (queue : later.queue = c.queue) (ends : later.ends = c.ends ++ [e])
    (tickets : later.world.tickets = c.world.tickets) (now : later.world.now = c.world.now)
    (answered : Answered policy executor (log ++ notes.map (.of e.handle)) e
      (notesOf e.handle log ++ notes)) :
    later.Agrees policy executor (log ++ notes.map (.of e.handle)) := by
  refine ⟨follows.trans h.follows, uses.trans h.uses, ⟨?_, fun s member waits => ?_, ?_⟩,
    fun s member => ?_, fun other member => ?_, fun handle unknown unended => ?_⟩
  · rw [queue]
    exact h.queued.distinct
  · rw [sessions] at member
    rw [queue] at waits
    exact h.queued.waiting s (List.mem_filter.1 member).1 waits
  · rw [queue, sessions]
    intro handle waits
    obtain ⟨s, member, rfl⟩ := List.mem_map.1 (h.queued.known waits)
    refine List.mem_map_of_mem (List.mem_filter.2 ⟨member, decide_eq_true fun same => ?_⟩)
    exact unqueued (same ▸ waits)
  · rw [sessions] at member
    obtain ⟨member, other⟩ := List.mem_filter.1 member
    refine (h.sessions s member).left (.refl s) (notesOf_map_of_ne ?_ notes)
      (Nat.le_of_eq tickets.symm) fun _ _ _ _ early => now ▸ early
    exact fun same => of_decide_eq_true other same.symm
  · rw [ends] at member
    rcases List.mem_append.1 member with member | member
    · have apart : e.handle ≠ other.handle := fun same =>
        unended (same ▸ List.mem_map_of_mem member)
      rw [notesOf_append, notesOf_map_of_ne apart, List.append_nil]
      exact (h.ends other member).left
    · cases List.mem_singleton.1 member
      rw [notesOf_append, notesOf_map_of]
      exact answered
  · rw [ends, List.map_append] at unended
    have apart : e.handle ≠ handle := fun same =>
      unended (List.mem_append_right _ (same ▸ List.mem_cons_self))
    rw [notesOf_append, notesOf_map_of_ne apart, List.append_nil]
    refine h.unknown handle (fun member => unknown ?_) fun member =>
      unended (List.mem_append_left _ member)
    obtain ⟨s, inside, rfl⟩ := List.mem_map.1 member
    rw [sessions]
    exact List.mem_map_of_mem (List.mem_filter.2 ⟨inside, decide_eq_true fun same => apart same.symm⟩)

/-- A session has taken a step, with what is noted. -/
theorem step (h : c.Agrees policy executor log) (sound : c.Sound) (member : session ∈ c.sessions)
    {deaf : Bool} (steps : c.Steps session deaf p) (tells : c.Tells session notes p) :
    (c.settle session p).Agrees policy executor (log ++ c.remarks session notes p) := by
  have through := steps.phase_ne
  have goes := steps.goes_deaf (sound.sessions session member)
  have now : p.1.now = c.world.now := tells.now (sound.sessions session member)
  have added := (goes_adds sound member goes.adds).sound
  have asked (id : String) (wanted : id ∈ p.1.requests) :
      Remark.cancel id ∈ log ++ p.1.requests.map .cancel :=
    List.mem_append_right _ (List.mem_map_of_mem wanted)
  -- The world has changed, and what answers have asked for is noted.
  have went : Agrees policy executor { c with world := p.1 } (log ++ p.1.requests.map .cancel) :=
    h.leaves (.of_eq rfl rfl rfl goes.adds.tickets rfl rfl) (fun _ => notesOf_map_cancel _ _)
      fun _ _ _ _ _ _ early => now ▸ early
  obtain ⟨taken, id, request, told⟩ := (h.sessions session member).told
  have settles : Settles ⟨executor, policy.defaults⟩ policy taken
      (.cancel taken.id ∈ log ++ p.1.requests.map .cancel) p.1 p.2
      (notesOf session.handle (log ++ p.1.requests.map .cancel) ++ notes) := by
    rw [notesOf_append, notesOf_map_cancel, List.append_nil]
    obtain ⟨rfl, rfl⟩ := And.intro h.follows h.uses
    refine tells.settles told sound.settled (sound.sessions session member) id request
      (fun dead => ?_) fun wanted => ?_
    · rw [id]
      exact List.mem_append_left _ ((h.sessions session member).cancelled dead)
    · rw [id]
      exact asked _ wanted
  rw [remarks, ← List.append_assoc]
  generalize log ++ p.1.requests.map .cancel = log at *
  obtain ⟨world, move⟩ := p
  cases goes.comes with
  | @stays next handle own cancelled _ _ _ =>
    cases settles with
    | stays named same told =>
      have accounted :
          Accounted policy executor world (log ++ notes.map (.of session.handle)) next := by
        refine ⟨fun dead => ?_, taken, named, same, ?_⟩
        · rw [own]
          exact List.mem_append_left _ ((went.sessions session member).cancelled (cancelled ▸ dead))
        · rwa [notesOf_append, handle, notesOf_map_of]
      have replaced := went.replace added member through handle accounted
      have granted := replaced.leaves (.grantRequests fun id wanted => ?_) notesOf_nil
        fun _ _ _ _ _ _ early => ?_
      · rwa [Move.notes, List.append_nil, ← List.append_nil (log ++ _)]
      · rw [List.append_nil]
        exact List.mem_append_left _ (asked id wanted)
      · rwa [world_grantRequests]
  | @ends response own obeys =>
    cases settles with
    | ends named closed =>
      have granted : Leaves (fun id => .cancel id ∈ log ++ []) { c with world := world }
          (Coordinator.grantRequests { c with world := world }) :=
        .grantRequests fun id wanted => (List.append_nil log).symm ▸ asked id wanted
      have left := granted.trans (.release (granted.queued went.queued))
      have freed := went.leaves left notesOf_nil fun _ _ _ _ _ _ early => by
        rwa [world_release, world_grantRequests]
      rw [List.append_nil] at freed
      have saved : (c.settle session (world, .ends response)).repository.get? response.executionId =
          some (.ofResponse session.request.workflowId response
            (Coordinator.grantRequests { c with world := world }).release.recordTime) :=
        Repository.get?_save _ _
      rw [Move.notes, saved]
      refine freed.retire ⟨session.handle, _, response⟩ (fun waits => ?_) (fun ended => ?_) rfl rfl
        rfl rfl rfl rfl rfl ?_
      · exact went.notMem_queue member through (left.queue waits)
      · rw [left.ends] at ended
        obtain ⟨e, ended, same⟩ := List.mem_map.1 ended
        exact sound.handle_ne_end member ended same.symm
      · rw [← List.append_assoc]
        exact .answered named (closed.mono (List.mem_append_left _))

/-- Whatever a coordinator does by the clock, the notes account for it. -/
theorem does (h : c.Agrees policy executor log) (sound : c.Sound) {items : List Item}
    (does : Does .timely c more items later) : later.Agrees policy executor (log ++ more) := by
  have idle {later : Coordinator} (leaves : Leaves (fun id => .cancel id ∈ log ++ []) c later)
      (now : later.world.now = c.world.now) : later.Agrees policy executor (log ++ []) :=
    h.leaves leaves (fun _ => rfl) fun _ _ _ _ _ _ early => now ▸ early
  cases does with
  | receive => exact idle (.of_eq rfl rfl rfl (Nat.le_refl _) rfl rfl) rfl
  | line request => exact idle (.of_eq rfl rfl rfl (Nat.le_refl _) rfl rfl) rfl
  | leave line => exact idle (.of_eq rfl rfl rfl (Nat.le_refl _) rfl rfl) rfl
  | pass early =>
    refine h.leaves (.of_eq rfl rfl rfl (Nat.le_refl _) rfl rfl) (fun _ => rfl)
      fun session member plan ticket due phase before => ?_
    exact Nat.max_le.2 ⟨before, early trivial session member plan ticket due phase⟩
  | register added =>
    cases register_ok added
    exact idle (.of_eq rfl rfl rfl (Nat.le_refl _) rfl rfl) rfl
  | cancel id =>
    refine h.leaves (.cancel c (List.mem_append_right _ List.mem_cons_self))
      (fun _ => notesOf_map_cancel _ [id]) fun _ _ _ _ _ _ early => ?_
    rwa [world_cancel]
  | refuse fresh =>
    rw [List.append_nil]
    exact h.refuse fresh rfl rfl rfl rfl rfl rfl rfl
  | repel fresh =>
    rw [List.append_nil]
    exact h.refuse fresh rfl rfl rfl rfl rfl rfl rfl
  | @queue handle fresh given request =>
    exact h.welcome (c.newcomer handle (c.nameFor handle request) request .queued) fresh rfl rfl
      rfl rfl rfl rfl (.waits rfl) (.inr ⟨rfl, rfl⟩)
  | @enter handle fresh given request =>
    exact h.welcome (c.newcomer handle (c.nameFor handle request) request .admitted) fresh rfl rfl
      rfl rfl rfl rfl (.enters rfl) (.inl rfl)
  | goOn member steps _ tells | conclude member steps _ tells =>
    exact h.step sound member steps (tells trivial)

end Agrees

/-- In every chronicle the notes account for all sessions and all ends. -/
theorem Chronicle.agrees (h : Chronicle policy executor c log) : c.Agrees policy executor log := by
  obtain ⟨items, history⟩ := h
  induction history with
  | make ids => exact agrees_make policy executor ids
  | does before does ih => exact ih.does before.sound does

end Coordinator

end Stepwise
