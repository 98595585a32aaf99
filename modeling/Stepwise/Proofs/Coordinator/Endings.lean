import Stepwise.Proofs.Coordinator.Cancellation
import Stepwise.Proofs.Coordinator.Deeds

/-!
# Endings

A request that is not repelled is saved once and told to end once, as its response says, after it
was told to start at most once and to be run again as often as it was retried (`Concluded`). A
callback waits from its registration for the first end of its execution that is saved, and is
called then with the response, behind those that were registered before it (`Heard`). So every end
of every interleaving makes itself known once (`ends_once`).
-/

namespace Stepwise

namespace Event

/-- An execution has ended. -/
def isEnd : Event → Bool
  | .workflowCompleted .. | .workflowFailed .. | .workflowCancelled .. => true
  | _ => false

/-- An execution starts. -/
def isStart : Event → Bool
  | .workflowStarted .. => true
  | _ => false

variable {event : Event} {id : String}

theorem IsOfRun.isEnd (h : event.IsOfRun id) : event.isEnd = false := by
  rcases h with node | ⟨_, _, _, rfl⟩
  · cases event <;> first | rfl | cases node
  · rfl

theorem IsOfRun.isStart (h : event.IsOfRun id) : event.isStart = false := by
  rcases h with node | ⟨_, _, _, rfl⟩
  · cases event <;> first | rfl | cases node
  · rfl

end Event

/-- What is known of the events of an execution before its end: none of them is an end, it starts
at most once, and it is run again as often as it is retried. -/
structure Event.Unended (retries : Nat) (events : List Event) : Prop where
  unended : ∀ event ∈ events, event.isEnd = false
  started : events.countP Event.isStart ≤ 1
  retried : events.filterMap Event.attempt? = List.range' 1 retries

variable {policy : Policy} {executor : Executor} {log before after : List Item} {e : End}
  {id workflowId : String} {retries : Nat} {events : List Event} {callback : Callback}
  {session : Session} {deeds : List Deed}

theorem Voiced.unended (h : Voiced id workflowId retries events) :
    Event.Unended retries events := by
  cases h with
  | silent => exact ⟨nofun, Nat.zero_le _, rfl⟩
  | @started nodes _ events retold =>
    have quiet : events.countP Event.isStart = 0 :=
      List.countP_eq_zero.2 fun event member => by
        rw [(retold.own event member).isStart]
        exact Bool.false_ne_true
    refine ⟨fun event member => ?_, ?_, retold.counted⟩
    · rcases List.mem_cons.1 member with rfl | member
      · rfl
      · exact (retold.own event member).isEnd
    · rw [List.countP_cons_of_pos rfl, quiet]

/-- What came of the request of an end: one record, one end, which says what the response says, and
the calls of some callbacks. -/
structure Concluded (log : List Item) (e : End) (request : Request) (events : List Event) :
    Prop where
  saved : ∃ recordedAt, (deedsOf e.handle log).filterMap Deed.record? =
    [.ofResponse request.workflowId e.response recordedAt]
  told : (deedsOf e.handle log).filterMap Deed.event? = events ++ [Coordinator.endEvent e.response]
  endsAs : e.response.ToldAs (Coordinator.endEvent e.response)
  voiced : Voiced e.response.executionId request.workflowId e.response.retries events
  unended : Event.Unended e.response.retries events
  called : ∃ callbacks : List Callback, (deedsOf e.handle log).filterMap Deed.called? =
    callbacks.map fun callback => callback.call e.response e.time

/-- What becomes of a callback of an execution after its registration. -/
inductive Heard (ends : List End) (before : List Item) (id : String) (callback : Callback)
    (after : List Item) : Prop
  /-- No end of the execution has been saved since, and the callback waits. -/
  | waits (unsaved : ∀ record ∈ gathered Deed.record? after, record.executionId ≠ id)
      (waits : pending id (before ++ .register id callback :: after) =
        pending id before ++ callback :: registered id after) :
      Heard ends before id callback after
  /-- It is called at the first end of the execution that is saved, and does not wait any more. -/
  | called {e : End} (member : e ∈ ends) (own : e.response.executionId = id)
      {middle rest : List Item}
      (unsaved : ∀ record ∈ gathered Deed.record? middle, record.executionId ≠ id)
      {callbacks : List Callback}
      (all : callbacks = pending id before ++ callback :: registered id middle)
      {workflowId : String} {recordedAt : Timestamp}
      (split : after = middle ++ (closing workflowId e.response recordedAt callbacks e.time).map
        (.of e.handle) ++ rest)
      (gone : pending id (before ++ .register id callback :: (middle ++
        (closing workflowId e.response recordedAt callbacks e.time).map (.of e.handle))) = []) :
      Heard ends before id callback after

/-- Requests that only tell save nothing and call nobody. -/
structure Speech (id workflowId : String) (retries : Nat) (deeds : List Deed) : Prop where
  voiced : Voiced id workflowId retries (deeds.filterMap Deed.event?)
  unsaved : deeds.filterMap Deed.record? = []
  uncalled : deeds.filterMap Deed.called? = []

/-- What is told after the gate is all that is told. -/
theorem speech_admission {request : Request} (voiced : Voiced id workflowId retries events) :
    Speech id workflowId retries (admission id request ++ events.map .tell) := by
  refine ⟨?_, ?_, ?_⟩ <;> rw [List.filterMap_append]
  · rw [event?_tells]
    exact voiced
  · exact record?_tells
  · exact called?_tells

/-- A request tells nothing of its end as long as it has a session. -/
theorem Underway.speech (underway : Underway session deeds) :
    Speech session.id session.request.workflowId session.retries deeds := by
  cases underway with
  | waits _ _ unrun | enters _ _ unrun => exact ⟨unrun ▸ .silent, rfl, rfl⟩
  | runs _ _ _ retold => exact speech_admission (.started retold)

theorem Passage.speech {request : Request} {response : Response}
    (passage : Passage policy request response deeds) :
    Speech response.executionId request.workflowId response.retries deeds := by
  cases passage with
  | refused shut same => exact ⟨same ▸ .silent, rfl, rfl⟩
  | served gate voiced => exact speech_admission voiced

theorem Ended.concluded (ended : Ended policy log e) :
    Repelled log e ∨ ∃ request events, Concluded log e request events := by
  rcases ended.deedsOf_cases with
    repelled | ⟨request, recordedAt, callbacks, deeds, passage, told, all⟩
  · exact .inl repelled
  · right
    obtain ⟨voiced, unsaved, uncalled⟩ := passage.speech
    refine ⟨request, _, ⟨recordedAt, ?_⟩, ?_, told, voiced, voiced.unended, callbacks, ?_⟩ <;>
      rw [all, List.filterMap_append]
    · rw [unsaved, record?_closing]
      rfl
    · rw [event?_closing]
    · rw [uncalled, called?_closing]
      rfl

/-- The first end of an execution that is saved, if there is one. -/
theorem exists_first_save (saved : ∃ record ∈ gathered Deed.record? log, record.executionId = id) :
    ∃ middle handle record rest, log = middle ++ .of handle (.save record) :: rest ∧
      record.executionId = id ∧ ∀ other ∈ gathered Deed.record? middle, other.executionId ≠ id := by
  induction log with
  | nil =>
    obtain ⟨record, member, -⟩ := saved
    cases member
  | cons item rest ih =>
    have later (kept : ∀ record ∈ gathered Deed.record? [item], record.executionId ≠ id) :
        ∃ middle handle record behind,
          item :: rest = middle ++ .of handle (.save record) :: behind ∧ record.executionId = id ∧
          ∀ other ∈ gathered Deed.record? middle, other.executionId ≠ id := by
      obtain ⟨record, member, own⟩ := saved
      rw [← List.singleton_append, gathered_append] at member
      have behind := (List.mem_append.1 member).resolve_left fun first => kept record first own
      obtain ⟨middle, handle, record, last, split, own, unsaved⟩ := ih ⟨record, behind, own⟩
      refine ⟨item :: middle, handle, record, last, congrArg (item :: ·) split, own, ?_⟩
      rw [← List.singleton_append, gathered_append]
      exact fun other member => (List.mem_append.1 member).elim (kept other) (unsaved other)
    have silent (none : gathered Deed.record? [item] = []) := later fun _ member =>
      absurd (none ▸ member) List.not_mem_nil
    cases item with
    | register => exact silent rfl
    | of handle deed =>
      cases deed with
      | save record =>
        by_cases own : record.executionId = id
        · exact ⟨[], handle, record, rest, rfl, own, fun _ member => absurd member List.not_mem_nil⟩
        · exact later fun other member => List.mem_singleton.1 member ▸ own
      | _ => exact silent rfl

namespace Coordinator

variable {c : Coordinator}

/-- A request that has not ended has saved nothing, called nobody, and told of no end. -/
theorem Ledger.unended (h : Ledger policy executor c log) {handle : Nat}
    (unended : handle ∉ c.ends.map End.handle) :
    (deedsOf handle log).filterMap Deed.record? = [] ∧
    (deedsOf handle log).filterMap Deed.called? = [] ∧
    ∃ retries, Event.Unended retries ((deedsOf handle log).filterMap Deed.event?) := by
  have recounts := h.recounts
  by_cases known : handle ∈ c.cores.map Session.handle
  · obtain ⟨core, inside, rfl⟩ := List.mem_map.1 known
    obtain ⟨voiced, unsaved, uncalled⟩ := (recounts.sessions core inside).speech
    exact ⟨unsaved, uncalled, _, voiced.unended⟩
  · rw [recounts.unknown handle known unended]
    exact ⟨rfl, rfl, 0, (Voiced.silent : Voiced "" "" 0 []).unended⟩

/-- A record is saved at an end, and the end is made known at once to the callbacks that wait for
it. -/
theorem Ledger.closes (h : Ledger policy executor c log) {handle : Nat} {record : ExecutionRecord}
    (split : log = before ++ .of handle (.save record) :: after) :
    ∃ e ∈ c.ends, e.handle = handle ∧ ∃ workflowId recordedAt rest,
      record = .ofResponse workflowId e.response recordedAt ∧
      after = (notices e.response (pending e.response.executionId before) e.time).map
        (.of handle) ++ rest := by
  have saves {deeds : List Deed} (member : .save record ∈ deeds) :
      deeds.filterMap Deed.record? ≠ [] := fun none =>
    nomatch List.filterMap_eq_nil_iff.1 none _ member
  have member : .of handle (.save record) ∈ log :=
    split ▸ List.mem_append_right _ List.mem_cons_self
  have ended : handle ∈ c.ends.map End.handle := by
    by_contra unended
    exact saves (mem_deedsOf member) (h.unended unended).1
  obtain ⟨e, inside, rfl⟩ := List.mem_map.1 ended
  refine ⟨e, inside, rfl, ?_⟩
  cases h.recounts.ends e inside with
  | @repelled id request first last parts fresh rest response other twin =>
    have all : deedsOf e.handle log = [.arrive id request, .answer e.response] := by
      rw [parts, deedsOf_append, deedsOf_append, fresh, rest, deedsOf_map_of, List.append_nil,
        List.nil_append]
    exact absurd (mem_deedsOf member) (by rw [all]; simp)
  | @closed request recordedAt first last parts rest passage told =>
    have absent {items : List Item} (quiet : (deedsOf e.handle items).filterMap Deed.record? = []) :
        .of e.handle (.save record) ∉ items := fun inside => saves (mem_deedsOf inside) quiet
    rw [split, closing, List.map_cons, List.append_assoc, List.cons_append] at parts
    have behind : .of e.handle (.save record) ∉ (notices e.response
        (pending e.response.executionId first) e.time).map (.of e.handle) ++ last := by
      refine absent ?_
      rw [deedsOf_append, deedsOf_map_of, rest, List.append_nil, record?_notices]
    -- The request saves only once, so both saves are the same.
    obtain ⟨rfl, same, rfl⟩ := (List.append_cons_inj_of_notMem (absent passage.speech.unsaved)
      behind).1 parts.symm
    cases same
    exact ⟨_, _, _, rfl, rfl⟩

/-- Every callback that is registered is heard. -/
theorem Ledger.heard (h : Ledger policy executor c log)
    (split : log = before ++ .register id callback :: after) :
    Heard c.ends before id callback after := by
  have kept (middle : List Item)
      (unsaved : ∀ record ∈ gathered Deed.record? middle, record.executionId ≠ id) :
      pending id (before ++ .register id callback :: middle) =
        pending id before ++ callback :: registered id middle := by
    have first : Item.callback? id (.register id callback) = some callback := if_pos rfl
    rw [pending_of_unsaved, registered, List.filterMap_cons_some first]
    · rfl
    · exact unsaved
  by_cases saved : ∃ record ∈ gathered Deed.record? after, record.executionId = id
  · obtain ⟨middle, handle, record, rest, parts, own, unsaved⟩ := exists_first_save saved
    have whole : log = (before ++ .register id callback :: middle) ++
        .of handle (.save record) :: rest := by
      rw [split, parts, List.append_assoc, List.cons_append]
    obtain ⟨e, member, rfl, workflowId, recordedAt, last, rfl, rfl⟩ := h.closes whole
    have same : e.response.executionId = id := own
    rw [same, kept middle unsaved] at parts
    have closes : after = middle ++ (closing workflowId e.response recordedAt
        (pending id before ++ callback :: registered id middle) e.time).map (.of e.handle) ++
          last := by
      rw [parts, List.append_assoc]
      rfl
    refine .called member same unsaved rfl closes ?_
    rw [← List.cons_append, ← List.append_assoc, pending_closing, if_pos same]
  · have unsaved : ∀ record ∈ gathered Deed.record? after, record.executionId ≠ id :=
      fun record member own => saved ⟨record, member, own⟩
    exact .waits unsaved (kept after unsaved)

/-- What comes out of a coordinator is what its requests do, in that order. A request that is
repelled only has its answer. Any other one that ends is saved once and told to end once, as its
response says, after it was told to start at most once and to be run again as often as it was
retried; one that has not ended has not come to that. Of each execution all callbacks that were
registered are called once, in that order, but for those that still wait; and each is called with
the first response that comes after it was registered. -/
theorem ends_once (policy : Policy) (executor : Executor) :
    Bookkeeping policy executor ∧
    ∀ c log, Ledger policy executor c log →
      c.world.log.events = gathered Deed.event? log ∧
      c.repository = (gathered Deed.record? log).foldl Repository.save .empty ∧
      c.called = gathered Deed.called? log ∧
      (∀ e ∈ c.ends, Repelled log e ∨ ∃ request events, Concluded log e request events) ∧
      (∀ handle, handle ∉ c.ends.map End.handle →
        (deedsOf handle log).filterMap Deed.record? = [] ∧
        (deedsOf handle log).filterMap Deed.called? = [] ∧
        ∃ retries, Event.Unended retries ((deedsOf handle log).filterMap Deed.event?)) ∧
      (∀ id, gathered (Deed.summons? id) log ++ pending id log = registered id log) ∧
      (∀ before id callback after, log = before ++ .register id callback :: after →
        Heard c.ends before id callback after) := by
  refine ⟨bookkeeping policy executor, fun c log ledger => ?_⟩
  obtain ⟨events, repository, called, -, registered⟩ := ledger.outlets
  exact ⟨events, repository, called, fun e member => (ledger.recounts.ends e member).concluded,
    fun handle unended => ledger.unended unended, registered,
    fun _ _ _ _ split => ledger.heard split⟩

/-- A request that only asks for the check of an errand. -/
def check : Request := { errand with mode := .validateOnly }

/-- Its session at the gate. -/
def checking : Session := newcomer (make .standard patient) 0 "run" check .admitted

theorem proceed_checking : ∃ response : Response, response.status = .completed ∧
    checking.proceed ⟨patient, Policy.standard.defaults⟩ .standard .empty =
      (.empty, .ends response) := by
  have parsed : Step.parse checking.request.steps = .ok fetch := parse_errand
  refine ⟨Session.checkResponse { checking with status := .running } .empty
    (Checker.validate ⟨Policy.standard.limits, Policy.standard.catalog⟩ fetch),
    congrArg Response.status (if_pos isValid_fetch), ?_⟩
  unfold Session.proceed
  rw [if_neg (by decide)]
  simp only [parsed]
  rfl

/-- The request passes the gate after a callback was registered. -/
theorem exists_checking : ∃ c after, Ledger .standard patient c (.register "run" "told" :: after) ∧
    checking ∈ c.sessions ∧ c.engine = ⟨patient, Policy.standard.defaults⟩ ∧ c.policy = .standard ∧
    c.world = .empty := by
  have added : (make .standard patient).register "run" "told" = .ok _ := if_neg (by decide)
  have registered :=
    ((ledger_make .standard patient numberedId).does (.register added)).does (.receive _)
  have entered := registered.does (@Does.enter _ _ 0 (by decide) (by decide) check (by decide)
    (fun _ member => absurd member List.not_mem_nil) (by decide))
  exact ⟨_, _, entered, List.mem_cons_self, rfl, rfl, rfl⟩

/-- The request has ended, and the callback has been told. -/
theorem ends_once_checking : ∃ c after e, Ledger .standard patient c
    (.register "run" "told" :: after) ∧ e ∈ c.ends ∧
    (∃ request events, Concluded (.register "run" "told" :: after) e request events) ∧
    Heard c.ends [] "run" "told" after := by
  obtain ⟨c, after, entered, member, engine, policy, world⟩ := exists_checking
  obtain ⟨response, completed, checked⟩ := proceed_checking
  have steps : c.Steps checking false (.empty, .ends response) := by
    have begins : c.Steps checking false (checking.proceed c.engine c.policy c.world) :=
      .begin rfl false
    rwa [engine, policy, world, checked] at begins
  obtain ⟨events, speaks⟩ := steps.speaks trivial
  have ended := (parted_ends entered.sound member (steps.goes_deaf trivial)).ends
  have untimed : Rules.any.clock → c.Tells checking [] (.empty, .ends response) := False.elim
  have concluded := entered.does (.conclude member steps speaks untimed)
  obtain ⟨-, -, -, all, -, -, heard⟩ := (ends_once .standard patient).2 _ _ concluded
  have inside := ended ▸ List.mem_append_right c.ends List.mem_cons_self
  refine ⟨_, _, ⟨checking.handle, World.empty.now, response⟩, concluded, inside, ?_,
    heard [] _ _ _ rfl⟩
  refine (all _ inside).resolve_left ?_
  rintro ⟨id, request, before, other, same, -⟩
  have status : response.status = .failed := congrArg Response.status same
  rw [completed] at status
  cases status

end Coordinator

end Stepwise
