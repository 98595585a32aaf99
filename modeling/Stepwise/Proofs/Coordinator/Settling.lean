import Stepwise.Proofs.Coordinator.History
import Stepwise.Proofs.Coordinator.Rest

/-!
# What steps leave of a coordinator

A cancellation leaves of every session its core, and everything else as it was (`Kept`). A session
that goes on takes its own place (`kept_stays`). One that ends leaves; its place at the gate is
given to whoever has waited longest, and its end is recorded (`parted_ends`).
-/

namespace Stepwise

namespace Session

/-- A session but for its cancellation, which others may bring about. -/
def core (session : Session) : Session := { session with cancelled := false, context := none }

/-- The session of a handle is let through the gate. -/
def letThrough (next : Option Nat) (session : Session) : Session :=
  if some session.handle = next then { session with phase := .admitted } else session

@[simp] theorem handle_core (session : Session) : session.core.handle = session.handle := rfl

@[simp] theorem handle_letThrough (next : Option Nat) (session : Session) :
    (session.letThrough next).handle = session.handle := by
  unfold letThrough
  split <;> rfl

@[simp] theorem letThrough_none (session : Session) : session.letThrough none = session :=
  if_neg nofun

theorem core_letThrough (next : Option Nat) (session : Session) :
    (session.letThrough next).core = session.core.letThrough next := by
  unfold letThrough
  rw [handle_core]
  split <;> rfl

end Session

namespace Coordinator

/-- The sessions of a coordinator but for their cancellations. -/
def cores (c : Coordinator) : List Session := c.sessions.map Session.core

/-- Nothing has happened to a coordinator but that time has passed, that sessions were cancelled,
or that the line is another. -/
structure Kept (c later : Coordinator) : Prop where
  policy : later.policy = c.policy
  log : later.world.log = c.world.log
  free : later.free = c.free
  queue : later.queue = c.queue
  cores : later.cores = c.cores
  callbacks : later.callbacks = c.callbacks
  called : later.called = c.called
  repository : later.repository = c.repository
  ends : later.ends = c.ends

/-- A session has ended, and nothing else has happened to the coordinator. -/
structure Parted (c : Coordinator) (session : Session) (world : World) (response : Response)
    (later : Coordinator) : Prop where
  policy : later.policy = c.policy
  log : later.world.log = (world.emit (endEvent response)).log
  free : later.free = if c.queue = [] then c.free + 1 else c.free
  queue : later.queue = c.queue.tail
  cores : later.cores =
    (c.cores.map (Session.letThrough c.queue.head?)).filter fun s => s.handle ≠ session.handle
  callbacks : later.callbacks = c.callbacks.erase response.executionId
  called : later.called = c.called ++ ((c.callbacks.find? response.executionId).getD []).map
    fun callback => callback.call response world.now
  repository : later.repository = c.repository.save
    (.ofResponse session.request.workflowId response { c with world := world }.recordTime)
  ends : later.ends = c.ends ++ [⟨session.handle, world.now, response⟩]

variable {manner : Manner} {c middle later : Coordinator} {session next : Session} {world : World}
  {response : Response}

namespace Kept

theorem refl (c : Coordinator) : c.Kept c := ⟨rfl, rfl, rfl, rfl, rfl, rfl, rfl, rfl, rfl⟩

theorem trans (first : c.Kept middle) (second : middle.Kept later) : c.Kept later :=
  ⟨second.policy.trans first.policy, second.log.trans first.log, second.free.trans first.free,
    second.queue.trans first.queue, second.cores.trans first.cores,
    second.callbacks.trans first.callbacks, second.called.trans first.called,
    second.repository.trans first.repository, second.ends.trans first.ends⟩

theorem cancel (sound : c.Sound) (id : String) : c.Kept (c.cancel id).2 := by
  unfold Coordinator.cancel
  split
  · exact .refl c
  · next session found =>
    have member : session ∈ c.sessions := List.mem_of_find?_eq_some found
    have cores : (c.replace (session.cancel c.world.now)).cores = c.cores := by
      rw [Coordinator.cores, replace, List.map_map]
      refine List.map_congr_left fun s inside => ?_
      dsimp only [Function.comp]
      split
      · next same =>
        cases sound.eq_of_handle inside member same
        rfl
      · rfl
    have replaced : c.Kept (c.replace (session.cancel c.world.now)) :=
      ⟨rfl, rfl, rfl, rfl, cores, rfl, rfl, rfl, rfl⟩
    dsimp only
    split
    · exact replaced.trans ⟨rfl, rfl, rfl, rfl, rfl, rfl, rfl, rfl, rfl⟩
    · exact replaced

theorem grantRequests (sound : c.Sound) : c.Kept c.grantRequests := by
  have both : c.Tended c.grantRequests ∧ c.Kept c.grantRequests := by
    refine grantRequests_induction (P := fun d => c.Tended d ∧ c.Kept d) ⟨?_, ?_⟩ ?_
    · exact .of_eq rfl id rfl rfl rfl rfl rfl rfl
    · exact ⟨rfl, rfl, rfl, rfl, rfl, rfl, rfl, rfl, rfl⟩
    · rintro middle id - ⟨tended, kept⟩
      have middleSound := tended.sound sound
      exact ⟨tended.trans (.cancel middleSound id), kept.trans (.cancel middleSound id)⟩
  exact both.2

end Kept

/-! ## Cores -/

theorem handles_cores (c : Coordinator) :
    c.cores.map Session.handle = c.sessions.map Session.handle := by
  rw [cores, List.map_map]
  rfl

theorem cores_replace (c : Coordinator) (next : Session) : (c.replace next).cores =
    c.cores.map fun s => if s.handle = next.handle then next.core else s := by
  rw [cores, cores, replace, List.map_map, List.map_map]
  refine List.map_congr_left fun s _ => ?_
  dsimp only [Function.comp]
  rw [Session.handle_core]
  split <;> rfl

/-- The place of a session that ends is given back, or given to whoever has waited longest. -/
theorem release_eq (c : Coordinator) : c.release =
    { c with
      free := if c.queue = [] then c.free + 1 else c.free
      queue := c.queue.tail
      sessions := c.sessions.map (Session.letThrough c.queue.head?)
      ready := c.ready ++ c.queue.head?.toList.map .session } := by
  unfold release
  split
  · next empty =>
    have same : Session.letThrough none = fun s => s := funext Session.letThrough_none
    rw [empty, if_pos rfl, List.head?_nil, same, List.map_id', Option.toList_none, List.map_nil,
      List.append_nil]
    rfl
  · next handle rest line =>
    have same : Session.letThrough (some handle) =
        fun s => if s.handle = handle then { s with phase := .admitted } else s :=
      funext fun s => if_congr Option.some_inj rfl rfl
    rw [line, if_neg (List.cons_ne_nil _ _), List.head?_cons, same]
    rfl

theorem cores_release (c : Coordinator) :
    c.release.cores = c.cores.map (Session.letThrough c.queue.head?) := by
  rw [release_eq, cores, cores, List.map_map, List.map_map]
  exact List.map_congr_left fun s _ => s.core_letThrough _

theorem cores_filter (c : Coordinator) (handle : Nat) :
    { c with sessions := c.sessions.filter fun s => s.handle ≠ handle : Coordinator }.cores =
      c.cores.filter fun s => s.handle ≠ handle := by
  rw [cores, cores, List.filter_map]
  rfl

/-! ## Steps of sessions -/

/-- A session that goes on takes its own place. -/
theorem kept_stays (sound : c.Sound) (member : session ∈ c.sessions)
    (goes : session.Goes manner c.world (world, .stays next)) :
    Kept ({ c with world := world }.replace next) (c.settle session (world, .stays next)) := by
  have added : Goes manner c { c with world := world } := goes_adds sound member goes.adds
  cases goes.comes with
  | stays handle id cancelled through _ nextSound =>
    exact .grantRequests (added.tend
      (tended_replace added.sound member handle id cancelled through nextSound)).sound

/-- A session that ends gives up its place at the gate, and its end is recorded. -/
theorem parted_ends (sound : c.Sound) (member : session ∈ c.sessions)
    (goes : session.Goes manner c.world (world, .ends response)) :
    c.Parted session world response (c.settle session (world, .ends response)) := by
  have added : Goes manner c { c with world := world } := goes_adds sound member goes.adds
  obtain ⟨policy, log, free, queue, cores, callbacks, called, repository, ends⟩ :=
    Kept.grantRequests added.sound
  have granted := world_grantRequests { c with world := world }
  generalize same : grantRequests { c with world := world } = d at *
  have filtered := cores_filter d.release session.handle
  rw [cores_release, cores, queue] at filtered
  have settled : c.settle session (world, .ends response) =
      { d.release with sessions := d.release.sessions.filter fun s => s.handle ≠ session.handle
        : Coordinator }.finish session.handle session.request.workflowId response := by
    rw [settle, same]
  rw [settled, release_eq]
  rw [release_eq] at filtered
  have now : d.world.now = world.now := by rw [granted]
  refine ⟨policy, ?_, ?_, ?_, filtered, ?_, ?_, ?_, ?_⟩
  · change (d.world.emit (endEvent response)).log = _
    rw [granted]
    rfl
  · change (if d.queue = [] then d.free + 1 else d.free) = _
    rw [queue, free]
  · exact congrArg List.tail queue
  · exact congrArg (Table.erase · response.executionId) callbacks
  · change d.called ++ ((d.callbacks.find? response.executionId).getD []).map
      (fun callback => callback.call response d.world.now) = _
    rw [called, callbacks, now]
  · change d.repository.save (.ofResponse session.request.workflowId response
      ⟨d.world.now / millisPerSecond, d.world.now % millisPerSecond * nanosPerMilli⟩) = _
    rw [repository, now]
    rfl
  · change d.ends ++ [⟨session.handle, d.world.now, response⟩] = _
    rw [ends, now]

end Coordinator

end Stepwise
