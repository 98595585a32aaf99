import Stepwise.Proofs.Coordinator.Settling

/-!
# The gate

The queue of a coordinator holds the sessions that wait at its gate, in the order in which they
came to it. Every place is free or held by a session that does not wait, and nobody waits while a
place is free. So requests pass the gate in the order in which they come to it (`Gate`).
-/

namespace Stepwise

/-- A session waits at the gate. -/
def Session.isQueued (session : Session) : Bool :=
  match session.phase with
  | .queued => true
  | _ => false

/-- What is left when the one entry of a key is dropped. -/
theorem length_filter_ne {α κ : Type} [DecidableEq κ] {key : α → κ} {entries : List α}
    (distinct : (entries.map key).Nodup) {entry : α} (member : entry ∈ entries) :
    (entries.filter fun other => key other ≠ key entry).length + 1 = entries.length := by
  have once : entries.countP (fun other => key other = key entry) = 1 := by
    have counted := List.count_eq_one_of_mem distinct (List.mem_map_of_mem member)
    rw [List.count_eq_countP, List.countP_map] at counted
    rw [← counted]
    exact List.countP_congr fun other _ => by simp
  have parts := List.length_eq_countP_add_countP (fun other => decide (key other = key entry))
    (l := entries)
  rw [once, Nat.add_comm] at parts
  rw [parts, ← List.countP_eq_length_filter]
  refine congrArg (· + 1) (List.countP_congr fun other _ => ?_)
  simp

/-- Without its first entry a list without repetitions is its tail. -/
theorem filter_ne_head? {α : Type} [DecidableEq α] {entries : List α} (distinct : entries.Nodup) :
    (entries.filter fun other => some other ≠ entries.head?) = entries.tail := by
  cases entries with
  | nil => rfl
  | cons first rest =>
    have apart : first ∉ rest := (List.nodup_cons.1 distinct).1
    rw [List.head?_cons, List.filter_cons_of_neg (by simp), List.tail_cons]
    refine List.filter_eq_self.2 fun other behind => ?_
    have differs : other ≠ first := fun twin => apart (twin ▸ behind)
    simpa using differs

namespace Session

variable {session next : Session}

theorem isQueued_eq_false (through : session.phase ≠ .queued) : session.isQueued = false := by
  unfold isQueued
  split
  · next waits => exact absurd waits through
  · rfl

theorem isQueued_core (session : Session) : session.core.isQueued = session.isQueued := rfl

theorem isQueued_letThrough (next : Option Nat) (session : Session) :
    (session.letThrough next).isQueued =
      (session.isQueued && decide (some session.handle ≠ next)) := by
  unfold letThrough
  split
  · next first => simp [first, isQueued]
  · next other => simp [other]

end Session

namespace Coordinator

/-- The gate of a coordinator keeps its order. -/
structure Gate (policy : Policy) (c : Coordinator) (log : List Item) : Prop where
  follows : c.policy = policy
  /-- Who waits at the gate, in the order of arrival. -/
  order : c.queue = (c.cores.filter Session.isQueued).map Session.handle
  places : c.free + c.cores.length = policy.places + c.queue.length
  full : c.queue = [] ∨ c.free = 0
  passed : doers Deed.isReach log = doers Deed.isPass log ++ c.queue

variable {rules : Rules} {policy : Policy} {executor : Executor} {c later : Coordinator}
  {noted : List Remark} {log more : List Item} {session next core : Session} {handle : Nat}

/-! ## Cores by their handles -/

theorem Sound.nodup_cores (sound : c.Sound) : (c.cores.map Session.handle).Nodup := by
  have distinct := sound.distinct
  rw [numbers, List.append_assoc] at distinct
  rw [handles_cores]
  exact (List.nodup_append.1 distinct).1

theorem Sound.core_eq (sound : c.Sound) (member : session ∈ c.sessions) (inside : core ∈ c.cores)
    (same : core.handle = session.handle) : core = session.core :=
  List.inj_on_of_nodup_map sound.nodup_cores inside (List.mem_map_of_mem member) same

/-! ## The queue -/

/-- Sessions that are changed in their places wait at the gate in the same order. -/
theorem queued_map {f : Session → Session} {sessions : List Session}
    (handle : ∀ s, (f s).handle = s.handle) :
    ((sessions.map f).filter Session.isQueued).map Session.handle =
      (sessions.filter fun s => (f s).isQueued).map Session.handle := by
  rw [List.filter_map, List.map_map]
  exact List.map_congr_left fun s _ => handle s

/-- Sessions of which one has left are one less, whoever is let through. -/
theorem Sound.length_without (sound : c.Sound) (member : session ∈ c.sessions) (next : Option Nat) :
    ((c.cores.map (Session.letThrough next)).filter fun s =>
      s.handle ≠ session.handle).length + 1 = c.cores.length := by
  have left := length_filter_ne sound.nodup_cores (List.mem_map_of_mem (f := Session.core) member)
  rw [List.filter_map, List.length_map, ← left]
  refine congrArg (fun l => List.length l + 1) (List.filter_congr fun s _ => ?_)
  rw [Function.comp, Session.handle_letThrough, Session.handle_core]

/-- When a session that is through the gate leaves, and another one is let through, the others wait
in the same order. -/
theorem Sound.queued_without (sound : c.Sound) (member : session ∈ c.sessions)
    (through : session.isQueued = false) (next : Option Nat) :
    (((c.cores.map (Session.letThrough next)).filter fun s =>
        s.handle ≠ session.handle).filter Session.isQueued).map Session.handle =
      ((c.cores.filter Session.isQueued).map Session.handle).filter fun other =>
        some other ≠ next := by
  rw [List.filter_map, List.filter_map, List.filter_map, List.map_map, List.filter_filter,
    List.filter_filter]
  have same : Session.handle ∘ Session.letThrough next = Session.handle :=
    funext fun s => s.handle_letThrough next
  rw [same]
  refine congrArg (List.map Session.handle) (List.filter_congr fun s among => ?_)
  simp only [Function.comp, Session.isQueued_letThrough, Session.handle_letThrough]
  cases waits : s.isQueued with
  | false => simp
  | true =>
    have other : s.handle ≠ session.handle := fun twin => by
      rw [sound.core_eq member among twin, Session.isQueued_core, through] at waits
      cases waits
    simp [other]

namespace Gate

theorem make (policy : Policy) (executor : Executor) (ids : Nat → String) :
    (make policy executor ids).Gate policy [] := ⟨rfl, rfl, rfl, .inl rfl, rfl⟩

/-- Nobody comes to the gate or passes it. -/
theorem frame (h : c.Gate policy log) (same : later.policy = c.policy)
    (free : later.free = c.free) (queue : later.queue = c.queue)
    (length : later.cores.length = c.cores.length)
    (waits : (later.cores.filter Session.isQueued).map Session.handle =
      (c.cores.filter Session.isQueued).map Session.handle)
    (reached : doers Deed.isReach more = []) (passed : doers Deed.isPass more = []) :
    later.Gate policy (log ++ more) := by
  refine ⟨same.trans h.follows, ?_, ?_, ?_, ?_⟩
  · rw [queue, waits, h.order]
  · rw [free, length, queue, h.places]
  · rw [queue, free]
    exact h.full
  · rw [doers_append, doers_append, reached, passed, List.append_nil, List.append_nil, queue,
      h.passed]

theorem kept (h : c.Gate policy log) (kept : c.Kept later) (reached : doers Deed.isReach more = [])
    (passed : doers Deed.isPass more = []) : later.Gate policy (log ++ more) :=
  h.frame kept.policy kept.free kept.queue (congrArg List.length kept.cores)
    (congrArg (fun cores => (cores.filter Session.isQueued).map Session.handle) kept.cores) reached
    passed

/-- A session of a new handle comes to the gate, and waits there unless there is room. -/
theorem welcome (h : c.Gate policy log) (core : Session) (same : later.policy = c.policy)
    (cores : later.cores = c.cores ++ [core])
    (passes : core.isQueued = true ∧ c.free = 0 ∧ later.free = c.free ∧
        later.queue = c.queue ++ [core.handle] ∧ doers Deed.isPass more = [] ∨
      core.isQueued = false ∧ c.free ≠ 0 ∧ later.free = c.free - 1 ∧ later.queue = c.queue ∧
        doers Deed.isPass more = [core.handle])
    (reached : doers Deed.isReach more = [core.handle]) : later.Gate policy (log ++ more) := by
  have length : later.cores.length = c.cores.length + 1 := by rw [cores, List.length_append]; rfl
  have places := h.places
  rcases passes with ⟨waits, full, free, queue, passed⟩ | ⟨goes, room, free, queue, passed⟩
  · refine ⟨same.trans h.follows, ?_, ?_, .inr (free.trans full), ?_⟩
    · rw [queue, cores, List.filter_append, List.map_append, ← h.order, List.filter_singleton,
        waits]
      rfl
    · rw [free, length, queue, List.length_append, List.length_singleton]
      omega
    · rw [doers_append, doers_append, reached, passed, List.append_nil, queue, h.passed,
        List.append_assoc]
  · have empty : c.queue = [] := h.full.resolve_right room
    refine ⟨same.trans h.follows, ?_, ?_, .inl (queue.trans empty), ?_⟩
    · rw [queue, cores, List.filter_append, List.map_append, ← h.order, List.filter_singleton,
        goes]
      exact (List.append_nil _).symm
    · rw [free, length, queue]
      omega
    · rw [doers_append, doers_append, reached, passed, queue, h.passed, empty, List.append_nil,
        List.append_nil]

/-- Whoever waits at the gate has a session there. -/
theorem exists_core (h : c.Gate policy log) (waits : handle ∈ c.queue) :
    ∃ core ∈ c.cores, core.handle = handle ∧ core.isQueued = true := by
  rw [h.order] at waits
  obtain ⟨core, member, same⟩ := List.mem_map.1 waits
  obtain ⟨inside, queued⟩ := List.mem_filter.1 member
  exact ⟨core, inside, same, queued⟩

/-- A session that is through the gate goes on and keeps its place. -/
theorem goOn (h : c.Gate policy log) (sound : c.Sound) (member : session ∈ c.sessions)
    (through : session.isQueued = false) (same : later.policy = c.policy)
    (free : later.free = c.free) (queue : later.queue = c.queue) (next : Session)
    (handle : next.handle = session.handle) (begun : next.isQueued = false)
    (cores : later.cores = c.cores.map fun s => if s.handle = next.handle then next else s)
    (reached : doers Deed.isReach more = []) (passed : doers Deed.isPass more = []) :
    later.Gate policy (log ++ more) := by
  have own (s : Session) : (if s.handle = next.handle then next else s).handle = s.handle := by
    split
    · next same => exact same.symm
    · rfl
  refine h.frame same free queue (by rw [cores, List.length_map]) ?_ reached passed
  rw [cores, queued_map own]
  refine congrArg (List.map Session.handle) (List.filter_congr fun s inside => ?_)
  split
  · next twin => rw [sound.core_eq member inside (twin.trans handle), begun, ← through]; rfl
  · rfl

/-- A session that is through the gate ends. Its place is free, or whoever came first to the gate
after it passes. -/
theorem conclude (h : c.Gate policy log) (sound : c.Sound) (member : session ∈ c.sessions)
    (through : session.isQueued = false) (same : later.policy = c.policy)
    (free : later.free = if c.queue = [] then c.free + 1 else c.free)
    (queue : later.queue = c.queue.tail)
    (cores : later.cores =
      (c.cores.map (Session.letThrough c.queue.head?)).filter fun s => s.handle ≠ session.handle)
    (reached : doers Deed.isReach more = [])
    (passed : doers Deed.isPass more = c.queue.head?.toList) : later.Gate policy (log ++ more) := by
  have places := h.places
  have length : later.cores.length + 1 = c.cores.length := cores ▸ sound.length_without member _
  refine ⟨same.trans h.follows, ?_, ?_, ?_, ?_⟩
  · have distinct : c.queue.Nodup := by
      rw [h.order]
      exact sound.nodup_cores.sublist (List.filter_sublist.map _)
    rw [queue, cores, sound.queued_without member through, ← h.order, filter_ne_head? distinct]
  · rw [free, queue, List.length_tail]
    split
    · next empty =>
      rw [empty] at places ⊢
      simp only [List.length_nil] at places ⊢
      omega
    · next waits =>
      have := List.length_pos_iff.2 waits
      omega
  · rw [queue, free]
    rcases h.full with empty | full
    · rw [empty]
      exact .inl rfl
    · split
      · next empty =>
        rw [empty]
        exact .inl rfl
      · exact .inr full
  · rw [doers_append, doers_append, reached, passed, queue, h.passed, List.append_nil,
      List.append_assoc]
    cases c.queue <;> rfl

theorem does (h : c.Gate policy log) (sound : c.Sound) (does : Does rules c noted more later) :
    later.Gate policy (log ++ more) := by
  cases does with
  | receive | line | leave | pass =>
    exact h.kept ⟨rfl, rfl, rfl, rfl, rfl, rfl, rfl, rfl, rfl⟩ rfl rfl
  | cancel id => exact h.kept (.cancel sound id) rfl rfl
  | register added =>
    cases register_ok added
    exact h.frame rfl rfl rfl rfl rfl rfl rfl
  | refuse fresh given request shut =>
    exact h.frame rfl rfl rfl rfl rfl
      (doers_parting Deed.eq_of_isReach c _ request.workflowId (shutOut _))
      (doers_parting Deed.eq_of_isPass c _ request.workflowId (shutOut _))
  | repel => exact h.frame rfl rfl rfl rfl rfl rfl rfl
  | @queue handle fresh given request gate other full =>
    exact h.welcome (c.newcomer handle _ request .queued).core rfl List.map_append
      (.inl ⟨rfl, full, rfl, rfl, rfl⟩) rfl
  | @enter handle fresh given request gate other room =>
    exact h.welcome (c.newcomer handle _ request .admitted).core rfl List.map_append
      (.inr ⟨rfl, room, rfl, rfl, rfl⟩) rfl
  | @goOn session next member deaf world steps events speaks =>
    have goes := steps.goes_deaf (sound.sessions session member)
    have kept := kept_stays sound member goes
    cases goes.comes with
    | stays handle id cancelled begun =>
      exact h.goOn sound member (Session.isQueued_eq_false steps.phase_ne) kept.policy kept.free
        kept.queue next.core handle (Session.isQueued_eq_false begun)
        (kept.cores.trans (cores_replace _ next)) (doers_tells Deed.eq_of_isReach)
        (doers_tells Deed.eq_of_isPass)
  | @conclude session member deaf world response steps events speaks =>
    obtain ⟨policy, -, free, queue, cores, -⟩ :=
      parted_ends sound member (steps.goes_deaf (sound.sessions session member))
    have passes {p : Deed → Bool} (only : ∀ deed, p deed = true → deed = .reach ∨ deed = .pass) :
        doers p ((events.map .tell).map (.of session.handle) ++
          c.queue.head?.toList.map (fun handle => .of handle .pass) ++
          (parting { c with world := world } session.request.workflowId response).map
            (.of session.handle)) =
          doers p (c.queue.head?.toList.map fun handle => .of handle .pass) := by
      rw [doers_append, doers_append, doers_tells only, doers_parting only, List.nil_append,
        List.append_nil]
    refine h.conclude sound member (Session.isQueued_eq_false steps.phase_ne) policy free queue
      cores ?_ ?_
    · rw [passes Deed.eq_of_isReach]
      cases c.queue.head? <;> rfl
    · rw [passes Deed.eq_of_isPass]
      cases c.queue.head? <;> rfl

end Gate

theorem Ledger.gate (h : Ledger policy executor c log) : c.Gate policy log :=
  h.induction (fun ids => .make policy executor ids) fun before gate does =>
    gate.does before.sound does

end Coordinator

end Stepwise
