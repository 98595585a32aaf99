import Stepwise.Proofs.Coordinator.Cancellation
import Stepwise.Proofs.Coordinator.Deeds

/-!
# One request for an id

As long as a request is open its session is in the registry, and no other request of its id is open
(`exclusive`). A request with the id of an open one is answered at once and leaves the coordinator
as it was. When no request is open the registry is empty, and the gate has all its places.
-/

namespace Stepwise

namespace Coordinator

variable {policy : Policy} {executor : Executor} {c : Coordinator} {log : List Item}
  {session : Session} {id : String} {handle : Nat}

/-- A request that has ended is open no more. -/
theorem Ledger.answered (h : Ledger policy executor c log) {e : End} (member : e ∈ c.ends) :
    .answer e.response ∈ deedsOf e.handle log := by
  rcases (h.recounts.ends e member).deedsOf_cases with
    ⟨_, _, _, _, -, -, -, deeds⟩ | ⟨_, _, _, _, -, -, deeds⟩
  · rw [deeds]
    exact List.mem_cons_of_mem _ List.mem_cons_self
  · rw [deeds, closing, notices]
    simp

/-- The open requests are those of the sessions. -/
theorem Ledger.open_iff (h : Ledger policy executor c log) : Open id handle log ↔
    ∃ session ∈ c.sessions, session.handle = handle ∧ session.id = id := by
  have recounts := h.recounts
  constructor
  · rintro ⟨⟨request, taken⟩, reached, unanswered⟩
    by_cases known : handle ∈ c.cores.map Session.handle
    · obtain ⟨core, inside, rfl⟩ := List.mem_map.1 known
      obtain ⟨session, member, rfl⟩ := List.mem_map.1 inside
      refine ⟨session, member, rfl, ?_⟩
      have underway := recounts.sessions _ inside
      generalize deedsOf session.core.handle log = deeds at underway taken
      cases underway <;> simp [admission] at taken <;> exact taken.1.symm
    · by_cases ended : handle ∈ c.ends.map End.handle
      · obtain ⟨e, member, rfl⟩ := List.mem_map.1 ended
        exact absurd (h.answered member) (unanswered _)
      · rw [recounts.unknown handle known ended] at reached
        cases reached
  · rintro ⟨session, member, rfl, rfl⟩
    exact (recounts.sessions _ (List.mem_map_of_mem member)).opened

/-- Without any session the gate has all its places. -/
theorem Gate.rest (gate : c.Gate policy log) (none : c.sessions = []) :
    c.queue = [] ∧ c.free = policy.places := by
  have cores : c.cores = [] := congrArg (List.map Session.core) none
  have queue : c.queue = [] := gate.order.trans (by rw [cores]; rfl)
  have places := gate.places
  rw [cores, queue] at places
  exact ⟨queue, places⟩

/-- A request with the id of a session leaves nothing but its answer. -/
theorem accept_duplicate (gate : c.policy.maxConcurrent ≠ 0) (member : session ∈ c.sessions)
    (handle : Nat) (request : Request) (same : session.id = c.nameFor handle request) :
    c.accept handle request =
      { c with ends := c.ends ++ [⟨handle, c.world.now, duplicate (c.nameFor handle request)⟩] } := by
  have known : (c.find? (c.nameFor handle request)).isSome = true :=
    List.find?_isSome.2 ⟨session, member, decide_eq_true same⟩
  rw [accept_eq, if_neg gate, if_pos known]
  rfl

/-- At any time at most one request of an id is open. Its session is in the registry from when it
comes to the gate until it is answered. A request with its id fails at once, and nothing else has
changed then. When all requests have ended the registry is empty, and all places are given back. -/
theorem exclusive (policy : Policy) (executor : Executor) :
    Bookkeeping policy executor ∧
    ∀ c log, Ledger policy executor c log →
      (∀ id first second, Open id first log → Open id second log → first = second) ∧
      (∀ id handle, Open id handle log ↔ ∃ session, c.find? id = some session ∧
        session.handle = handle ∧ c.session? handle = some session) ∧
      (∀ handle request other, Open (c.nameFor handle request) other log →
        c.accept handle request = { c with
          ends := c.ends ++ [⟨handle, c.world.now, duplicate (c.nameFor handle request)⟩] } ∧
        (duplicate (c.nameFor handle request)).status = .failed ∧
        (duplicate (c.nameFor handle request)).success = false ∧
        (duplicate (c.nameFor handle request)).errorCode = some "ORCA-040") ∧
      ((∀ handle id request, .arrive id request ∈ deedsOf handle log →
          ∃ e ∈ c.ends, e.handle = handle) →
        c.sessions = [] ∧ c.queue = [] ∧ c.free = (make policy executor).free) := by
  refine ⟨bookkeeping policy executor, fun c log ledger => ?_⟩
  have sound := ledger.sound
  have recounts := ledger.recounts
  refine ⟨fun id first second one two => ?_, fun id handle => ?_,
    fun handle request other twin => ?_, fun returned => ?_⟩
  · obtain ⟨a, inside, rfl, own⟩ := ledger.open_iff.1 one
    obtain ⟨b, among, rfl, same⟩ := ledger.open_iff.1 two
    rw [sound.eq_of_id inside among (own.trans same.symm)]
  · rw [ledger.open_iff]
    constructor
    · rintro ⟨session, member, rfl, rfl⟩
      exact ⟨session, sound.find?_eq member, rfl, sound.session?_eq member⟩
    · rintro ⟨session, found, own, -⟩
      exact ⟨session, List.mem_of_find?_eq_some found, own, by simpa using List.find?_some found⟩
  · obtain ⟨session, member, -, own⟩ := ledger.open_iff.1 twin
    have gate : c.policy.maxConcurrent ≠ 0 :=
      ledger.gate.follows ▸ recounts.gate _ (List.mem_map_of_mem member)
    exact ⟨accept_duplicate gate member handle request own, rfl, rfl, rfl⟩
  · have none : c.sessions = [] := by
      refine List.eq_nil_iff_forall_not_mem.2 fun session member => ?_
      obtain ⟨⟨request, taken⟩, -, -⟩ := ledger.open_iff.2 ⟨session, member, rfl, rfl⟩
      obtain ⟨e, ended, same⟩ := returned _ _ _ taken
      exact sound.handle_ne_end member ended same.symm
    exact ⟨none, ledger.gate.rest none⟩

/-- A second request with the id of one whose task has not been answered. -/
theorem exclusive_busy : ∃ log, Ledger .standard patient busy log ∧
    ∃ other, Open "run" other log ∧ busy.accept 1 errand =
      { busy with ends := busy.ends ++ [⟨1, busy.world.now, duplicate "run"⟩] } := by
  obtain ⟨keeping, holds⟩ := exclusive .standard patient
  obtain ⟨log, ledger⟩ := keeping.ledger numberedId busy reached_busy
  obtain ⟨-, registered, repels, -⟩ := holds busy log ledger
  obtain ⟨session, member, found, -⟩ := exists_session_busy
  have opened : Open "run" session.handle log :=
    (registered _ _).2 ⟨session, found, rfl, ledger.sound.session?_eq member⟩
  exact ⟨log, ledger, _, opened, (repels 1 errand _ opened).1⟩

end Coordinator

end Stepwise
