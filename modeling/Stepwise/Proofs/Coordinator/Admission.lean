import Stepwise.Proofs.Coordinator.Cancellation
import Stepwise.Proofs.Coordinator.Deeds

/-!
# Admission

No more requests are under way than the gate has places, and those that come to it pass it in the
order in which they come (`admission_in_turn`). Requests with ids of their own all pass it before
they end: nobody is turned away because the places are taken.
-/

namespace Stepwise

namespace Activity

mutual

/-- The calls inside an activity that have not been answered. -/
def calls : Activity → List Call
  | .calling _ _ call _ _ _ _ _ => [call]
  | .pausing .. => []
  | .polling .. => []
  | .sequence _ _ current _ => calls current
  | .branch _ current => calls current
  | .loop _ _ _ _ _ current _ => calls current
  | .parallel _ _ lanes _ _ _ => callsOfLanes lanes

/-- The calls in flight in the lanes of a block. -/
def callsOfLanes : List (Lane Activity) → List Call
  | [] => []
  | lane :: rest => callsOfLane lane ++ callsOfLanes rest

/-- The calls in flight in a lane. -/
def callsOfLane : Lane Activity → List Call
  | .running _ activity => calls activity
  | .ended _ _ => []

end

end Activity

/-- The id under which a request is taken. -/
def Deed.id? : Deed → Option String
  | .arrive id _ => some id
  | _ => none

namespace Session

/-- The calls of a session that have not been answered. -/
def calls (session : Session) : List Call :=
  match session.phase with
  | .executing _ activity _ => activity.calls
  | .queued | .admitted | .pausing .. => []

/-- A session runs, or waits for the answer to a call. -/
def isBusy (session : Session) : Bool := session.status = .running || !session.calls.isEmpty

variable {session : Session} {deeds : List Deed}

/-- Whoever is busy has passed the gate. -/
theorem isQueued_of_isBusy (underway : Underway session.core deeds) (busy : session.isBusy = true) :
    session.isQueued = false := by
  refine isQueued_eq_false fun waits => ?_
  have none : session.calls = [] := by rw [calls, waits]
  cases underway with
  | waits _ pending =>
    have status : session.status = .pending := pending
    rw [isBusy, none, status] at busy
    cases busy
  | enters admitted => exact absurd (waits.symm.trans admitted) nofun
  | runs through => exact through waits

end Session

/-- A request with an id of its own comes to the gate, and passes it before it ends. -/
theorem Ended.passed {policy : Policy} {log : List Item} {e : End} (ended : Ended policy log e)
    (gate : policy.maxConcurrent ≠ 0) (distinct : (gathered Deed.id? log).Nodup) :
    .reach ∈ deedsOf e.handle log ∧ .pass ∈ deedsOf e.handle log := by
  cases ended with
  | @repelled id request before after split fresh rest response other twin =>
    -- The id had been taken by the request that was open.
    obtain ⟨earlier, taken⟩ := twin.taken
    have known : id ∈ gathered Deed.id? before := mem_gathered taken rfl
    rw [split, gathered_append, gathered_append, gathered_map_of] at distinct
    have apart := (List.nodup_append.1 (List.nodup_append.1 distinct).1).2.2
    exact absurd rfl (apart id known id List.mem_cons_self)
  | @closed request recordedAt before after split rest passage =>
    rw [split, deedsOf_append, deedsOf_append]
    generalize deedsOf e.handle before = deeds at passage ⊢
    cases passage with
    | refused shut => exact absurd shut gate
    | served => simp [admission]

namespace Coordinator

variable {policy : Policy} {executor : Executor} {c : Coordinator} {log : List Item}

/-- No more sessions are busy than the gate has places. -/
theorem countP_isBusy_le (gate : c.Gate policy log) (recounts : c.Recounts policy log) :
    c.sessions.countP Session.isBusy ≤ policy.places := by
  have split := List.length_eq_countP_add_countP Session.isQueued (l := c.cores)
  have queued : c.queue.length = c.cores.countP Session.isQueued := by
    rw [gate.order, List.length_map, List.countP_eq_length_filter]
  have busy : c.sessions.countP Session.isBusy ≤
      c.cores.countP fun core => decide ¬core.isQueued = true := by
    rw [cores, List.countP_map]
    refine List.countP_mono_left fun session member busy => ?_
    have underway := recounts.sessions _ (List.mem_map_of_mem member)
    have through := Session.isQueued_of_isBusy underway busy
    simp [Session.isQueued_core, through]
  have places := gate.places
  omega

/-- No more sessions run or wait for answers than the policy says, and nobody waits while there is
a place left. Requests pass the gate in the order in which they come to it: those that have not
passed it yet stand in its queue. If all have ids of their own, each comes to the gate as soon as it
arrives, and has passed it when it ends, so none is turned away. -/
theorem admission_in_turn (policy : Policy) (executor : Executor)
    (gate : policy.maxConcurrent ≠ 0) :
    Bookkeeping policy executor ∧
    ∀ c log, Ledger policy executor c log →
      c.sessions.countP Session.isBusy ≤ policy.maxConcurrent.toNat ∧
      (c.queue = [] ∨ c.free = 0) ∧
      doers Deed.isReach log = doers Deed.isPass log ++ c.queue ∧
      ((gathered Deed.id? log).Nodup →
        (∀ handle, deedsOf handle log ≠ [] → .reach ∈ deedsOf handle log) ∧
        ∀ e ∈ c.ends, .pass ∈ deedsOf e.handle log) := by
  refine ⟨bookkeeping policy executor, fun c log ledger => ?_⟩
  have recounts := ledger.recounts
  refine ⟨?_, ledger.gate.full, ledger.gate.passed, fun distinct => ⟨fun handle arrived => ?_,
    fun e ended => ?_⟩⟩
  · exact Nat.le_trans (countP_isBusy_le ledger.gate recounts) (Nat.min_le_left _ _)
  · by_cases known : handle ∈ c.cores.map Session.handle
    · obtain ⟨core, inside, rfl⟩ := List.mem_map.1 known
      exact (recounts.sessions core inside).opened.reached
    · by_cases ended : handle ∈ c.ends.map End.handle
      · obtain ⟨e, member, rfl⟩ := List.mem_map.1 ended
        exact ((recounts.ends e member).passed gate distinct).1
      · exact absurd (recounts.unknown handle known ended) arrived
  · exact ((recounts.ends e ended).passed gate distinct).2

/-- One request at a time. -/
def oneByOne : Policy := { Policy.standard with maxConcurrent := 1 }

/-- The same errand again. -/
def nextErrand : Request := { errand with executionId := some "next" }

/-- The second of two requests waits at a gate with one place. -/
theorem exists_waiting : ∃ c log, Ledger oneByOne patient c log ∧ c.queue = [1] ∧
    doers Deed.isPass log = [0] ∧ gathered Deed.id? log = ["run", "next"] := by
  have received : Ledger oneByOne patient (make oneByOne patient).received [] :=
    (ledger_make oneByOne patient numberedId).none (.receive _)
  have entered := received.does (@Does.enter _ _ 0 (by decide) (by decide) errand (by decide)
    (fun _ member => absurd member List.not_mem_nil) (by decide))
  have again := entered.none (.receive _)
  have queued := again.does (@Does.queue _ _ 1 (by decide) (by decide) nextErrand (by decide)
    (List.forall_mem_singleton.2 (by decide)) (by decide))
  exact ⟨_, _, queued, rfl, rfl, rfl⟩

theorem admission_in_turn_waiting : oneByOne.maxConcurrent ≠ 0 ∧
    ∃ c log, Ledger oneByOne patient c log ∧ c.queue = [1] ∧ doers Deed.isReach log = [0, 1] ∧
      c.sessions.countP Session.isBusy ≤ 1 ∧
      ∀ handle, deedsOf handle log ≠ [] → .reach ∈ deedsOf handle log := by
  have gate : oneByOne.maxConcurrent ≠ 0 := by decide
  obtain ⟨c, log, ledger, queue, passed, ids⟩ := exists_waiting
  obtain ⟨few, -, order, all⟩ := (admission_in_turn oneByOne patient gate).2 c log ledger
  have distinct : (gathered Deed.id? log).Nodup := by
    rw [ids]
    decide
  rw [passed, queue] at order
  exact ⟨gate, c, log, ledger, queue, order, few, (all distinct).1⟩

end Coordinator

end Stepwise
