import Stepwise.Proofs.Coordinator.Settling

/-!
# Outlets

Whatever comes out of a coordinator, to its events, its repository and its callbacks, is what the
ledger says that the requests have done, in that order (`Outlets`). What requests do but for their
ends only adds events (`Outlets.speak`); an end is saved, told, and given to the callbacks that
wait for it (`Outlets.close`).
-/

namespace Stepwise

namespace Coordinator

/-- What has come out of a coordinator is what its ledger says. -/
structure Outlets (c : Coordinator) (log : List Item) : Prop where
  events : c.world.log.events = gathered Deed.event? log
  repository : c.repository = (gathered Deed.record? log).foldl Repository.save .empty
  called : c.called = gathered Deed.called? log
  callbacks : ∀ id, (c.callbacks.find? id).getD [] = pending id log
  /-- Every callback that was registered was called once, in the order of the registrations, or
  waits. -/
  registered : ∀ id, gathered (Deed.summons? id) log ++ pending id log = registered id log

variable {rules : Rules} {policy : Policy} {executor : Executor} {c later : Coordinator}
  {noted : List Remark} {log more : List Item} {handle : Nat}

namespace Outlets

theorem make (policy : Policy) (executor : Executor) (ids : Nat → String) :
    (make policy executor ids).Outlets [] := ⟨rfl, rfl, rfl, fun _ => rfl, fun _ => rfl⟩

theorem kept (h : c.Outlets log) (kept : c.Kept later) : later.Outlets log := by
  refine ⟨?_, kept.repository.trans h.repository, kept.called.trans h.called, fun id => ?_,
    h.registered⟩
  · rw [kept.log]
    exact h.events
  · rw [kept.callbacks]
    exact h.callbacks id

/-- A request does something that neither saves a record nor calls a callback. -/
theorem speak (h : c.Outlets log) {deeds : List Deed} (handle : Nat)
    (record : deeds.filterMap Deed.record? = []) (called : deeds.filterMap Deed.called? = [])
    (events : later.world.log.events = c.world.log.events ++ deeds.filterMap Deed.event?)
    (repository : later.repository = c.repository) (callbacks : later.callbacks = c.callbacks)
    (same : later.called = c.called) : later.Outlets (log ++ deeds.map (.of handle)) := by
  have waits (id : String) : pending id (log ++ deeds.map (.of handle)) = pending id log := by
    rw [pending_of_unsaved, registered_map_of, List.append_nil]
    rw [gathered_map_of, record]
    exact fun _ => nofun
  have summons (id : String) : deeds.filterMap (Deed.summons? id) = [] := by
    refine List.filterMap_eq_nil_iff.2 fun deed member => ?_
    have quiet := List.filterMap_eq_nil_iff.1 called deed member
    cases deed with
    | call => cases quiet
    | _ => rfl
  refine ⟨?_, ?_, ?_, fun id => ?_, fun id => ?_⟩
  · rw [events, h.events, gathered_append, gathered_map_of]
  · rw [repository, h.repository, gathered_append, gathered_map_of, record, List.append_nil]
  · rw [same, h.called, gathered_append, gathered_map_of, called, List.append_nil]
  · rw [callbacks, waits, h.callbacks]
  · rw [waits, gathered_append, gathered_map_of, summons, List.append_nil, h.registered,
      registered_append, registered_map_of, List.append_nil]

/-- A request ends. -/
theorem close (h : c.Outlets log) (handle : Nat) {workflowId : String} {response : Response}
    {recordedAt : Timestamp} {time : Nat}
    (events : later.world.log.events = c.world.log.events ++ [endEvent response])
    (repository : later.repository =
      c.repository.save (.ofResponse workflowId response recordedAt))
    (called : later.called = c.called ++ ((c.callbacks.find? response.executionId).getD []).map
      fun callback => callback.call response time)
    (callbacks : later.callbacks = c.callbacks.erase response.executionId) :
    later.Outlets (log ++ (closing workflowId response recordedAt
      ((c.callbacks.find? response.executionId).getD []) time).map (.of handle)) := by
  refine ⟨?_, ?_, ?_, fun id => ?_, fun id => ?_⟩
  · rw [events, h.events, gathered_append, gathered_map_of, event?_closing]
  · rw [repository, h.repository, gathered_append, gathered_map_of, record?_closing,
      List.foldl_append]
    rfl
  · rw [called, h.called, gathered_append, gathered_map_of, called?_closing]
  · rw [callbacks, Table.find?_erase, pending_closing, ← h.callbacks id]
    split <;> rfl
  · rw [pending_closing, gathered_append, gathered_map_of, summons?_closing, h.callbacks,
      registered_append, registered_map_of, List.append_nil, ← h.registered id]
    split
    · next own => rw [own, List.append_nil]
    · rw [List.append_nil]

/-- A callback is registered. -/
theorem register (h : c.Outlets log) {id : String} {callback : Callback}
    (added : c.register id callback = .ok later) :
    later.Outlets (log ++ [.register id callback]) := by
  cases register_ok added
  have single (other : String) : Stepwise.registered other [.register id callback] =
      if id = other then [callback] else [] := by
    by_cases own : id = other <;> simp [Stepwise.registered, Item.callback?, own]
  have waits (other : String) : pending other (log ++ [.register id callback]) =
      pending other log ++ if id = other then [callback] else [] := by
    rw [pending_append_singleton, Item.pending]
    split
    · rfl
    · rw [List.append_nil]
  refine ⟨?_, ?_, ?_, fun other => ?_, fun other => ?_⟩
  · rw [gathered_append, gathered_register, List.append_nil]
    exact h.events
  · rw [gathered_append, gathered_register, List.append_nil]
    exact h.repository
  · rw [gathered_append, gathered_register, List.append_nil]
    exact h.called
  · rw [waits, Table.find?_insert, ← h.callbacks other]
    split
    · next own => rw [own, Option.getD_some]
    · rw [List.append_nil]
  · rw [waits, gathered_append, gathered_register, List.append_nil, ← List.append_assoc,
      h.registered, registered_append, single]

/-- Whatever is entered in the ledger has come out. -/
theorem does (h : c.Outlets log) (sound : c.Sound) (does : Does rules c noted more later) :
    later.Outlets (log ++ more) := by
  have quiet {deeds : List Deed} (kept : later.world.log = c.world.log)
      (repository : later.repository = c.repository) (callbacks : later.callbacks = c.callbacks)
      (called : later.called = c.called) (handle : Nat)
      (silent : deeds.filterMap Deed.event? = []) (unsaved : deeds.filterMap Deed.record? = [])
      (uncalled : deeds.filterMap Deed.called? = []) :
      later.Outlets (log ++ deeds.map (.of handle)) := by
    refine h.speak handle unsaved uncalled ?_ repository callbacks called
    rw [silent, List.append_nil, kept]
  cases does with
  | receive | line | leave | pass =>
    rw [List.append_nil]
    exact h.kept ⟨rfl, rfl, rfl, rfl, rfl, rfl, rfl, rfl, rfl⟩
  | cancel id =>
    rw [List.append_nil]
    exact h.kept (.cancel sound id)
  | register added => exact h.register added
  | @refuse handle fresh given request shut =>
    have arrived : c.Outlets
        (log ++ [.arrive (c.nameFor handle request) request].map (.of handle)) :=
      h.speak handle rfl rfl (List.append_nil _).symm rfl rfl rfl
    rw [List.map_cons, List.append_cons]
    exact arrived.close handle (EventLog.events_emit ..) rfl rfl rfl
  | repel | queue | enter => exact quiet rfl rfl rfl rfl _ rfl rfl rfl
  | goOn member steps speaks =>
    have kept := kept_stays sound member (steps.goes_deaf (sound.sessions _ member))
    refine h.speak _ record?_tells called?_tells ?_ kept.repository kept.callbacks kept.called
    rw [event?_tells, kept.log]
    exact speaks.tells
  | @conclude session member deaf world response steps events speaks =>
    obtain ⟨-, told, -, -, -, callbacks, called, repository, -⟩ :=
      parted_ends sound member (steps.goes_deaf (sound.sessions _ member))
    -- First it tells what it has come to, and somebody else is let through the gate.
    have spoken : Outlets { c with world := world }
        (log ++ (events.map .tell).map (.of session.handle)) :=
      h.speak session.handle record?_tells called?_tells (event?_tells.symm ▸ speaks.tells) rfl rfl
        rfl
    have passed : Outlets { c with world := world } (log ++ (events.map .tell).map
        (.of session.handle) ++ c.queue.head?.toList.map fun handle => .of handle .pass) := by
      cases c.queue.head? with
      | none => rwa [Option.toList_none, List.map_nil, List.append_nil]
      | some handle =>
        have admitted : Outlets { c with world := world } (log ++ (events.map .tell).map
            (.of session.handle) ++ [.pass].map (.of handle)) :=
          spoken.speak handle rfl rfl (List.append_nil _).symm rfl rfl rfl
        exact admitted
    rw [← List.append_assoc, ← List.append_assoc log]
    exact passed.close session.handle (told ▸ EventLog.events_emit ..) repository called callbacks

end Outlets

theorem Ledger.outlets (h : Ledger policy executor c log) : c.Outlets log :=
  h.induction (fun ids => .make policy executor ids) fun before outlets does =>
    outlets.does before.sound does

end Coordinator

end Stepwise
