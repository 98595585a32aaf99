import Stepwise.Proofs.Coordinator.Notes

/-!
# Logs

Two logs are kept of a coordinator. Remarks note how the runs of each request went and which
executions somebody asked to cancel. Items list what each request does for everybody to see, and
which callbacks are registered. What one request has done can be read off either.
-/

namespace Stepwise

/-! ## Remarks -/

/-- What is noted of a coordinator: something about the request of a handle, or that an execution
is to be cancelled. -/
inductive Remark where
  | of (handle : Nat) (note : Note)
  | cancel (id : String)

/-- The note of a remark, if it is about a handle. -/
def Remark.noteOf? (handle : Nat) : Remark → Option Note
  | .of other note => if other = handle then some note else none
  | .cancel _ => none

/-- What is noted of the request of a handle. -/
def notesOf (handle : Nat) (log : List Remark) : List Note := log.filterMap (Remark.noteOf? handle)

@[simp] theorem notesOf_nil (handle : Nat) : notesOf handle [] = [] := rfl

@[simp] theorem notesOf_cancel (handle : Nat) (id : String) :
    notesOf handle [.cancel id] = [] := rfl

@[simp] theorem notesOf_append (handle : Nat) (log more : List Remark) :
    notesOf handle (log ++ more) = notesOf handle log ++ notesOf handle more :=
  List.filterMap_append

@[simp] theorem notesOf_map_of (handle : Nat) (notes : List Note) :
    notesOf handle (notes.map (.of handle)) = notes := by
  have own : Remark.noteOf? handle ∘ Remark.of handle = some := funext fun _ => if_pos rfl
  rw [notesOf, List.filterMap_map, own, List.filterMap_some]

theorem notesOf_map_of_ne {handle other : Nat} (h : other ≠ handle) (notes : List Note) :
    notesOf handle (notes.map (.of other)) = [] := by
  rw [notesOf, List.filterMap_map]
  exact List.filterMap_eq_nil_iff.2 fun note _ => if_neg h

@[simp] theorem notesOf_map_cancel (handle : Nat) (ids : List String) :
    notesOf handle (ids.map .cancel) = [] := by
  rw [notesOf, List.filterMap_map]
  exact List.filterMap_eq_nil_iff.2 fun _ _ => rfl

/-! ## Items -/

/-- What a request does. -/
inductive Deed where
  /-- It arrives, and is taken under an id. -/
  | arrive (id : String) (request : Request)
  /-- It comes to the gate. -/
  | reach
  /-- It is given a place by the gate. -/
  | pass
  | tell (event : Event)
  | save (record : ExecutionRecord)
  /-- A callback is called with its response. -/
  | call (callback : Callback) (response : Response) (time : Nat)
  | answer (response : Response)

namespace Deed

/-- The event that a deed tells. -/
def event? : Deed → Option Event
  | .tell event => some event
  | _ => none

/-- The record that a deed saves. -/
def record? : Deed → Option ExecutionRecord
  | .save record => some record
  | _ => none

/-- What comes of the callback that a deed calls. -/
def called? : Deed → Option Called
  | .call callback response time => some (callback.call response time)
  | _ => none

/-- The callback that is called at an end of an execution. -/
def summons? (id : String) : Deed → Option Callback
  | .call callback response _ => if response.executionId = id then some callback else none
  | _ => none

/-- The deed of a session that has reached the gate. -/
def isReach : Deed → Bool
  | .reach => true
  | _ => false

/-- The deed of a session that passes the gate. -/
def isPass : Deed → Bool
  | .pass => true
  | _ => false

theorem eq_of_isReach (deed : Deed) (h : deed.isReach = true) : deed = .reach ∨ deed = .pass := by
  cases deed with
  | reach => exact .inl rfl
  | _ => cases h

theorem eq_of_isPass (deed : Deed) (h : deed.isPass = true) : deed = .reach ∨ deed = .pass := by
  cases deed with
  | pass => exact .inr rfl
  | _ => cases h

end Deed

/-- A deed of the request of a handle, or a callback that is registered. -/
inductive Item where
  | of (handle : Nat) (deed : Deed)
  | register (id : String) (callback : Callback)

namespace Item

/-- The deed of an item, whoever does it. -/
def deed? : Item → Option Deed
  | .of _ deed => some deed
  | .register .. => none

/-- The deed of an item, if it is that of a handle. -/
def deedOf? (handle : Nat) : Item → Option Deed
  | .of other deed => if other = handle then some deed else none
  | .register .. => none

/-- The handle of an item, if its deed is of some sort. -/
def handle? (p : Deed → Bool) : Item → Option Nat
  | .of handle deed => if p deed then some handle else none
  | .register .. => none

/-- The callback that an item registers for an execution. -/
def callback? (id : String) : Item → Option Callback
  | .register other callback => if other = id then some callback else none
  | .of .. => none

/-- The callbacks of an execution that wait to be called, after one more entry. All of them are
called when an end of the execution is saved. -/
def pending (id : String) (waiting : List Callback) : Item → List Callback
  | .register other callback => if other = id then waiting ++ [callback] else waiting
  | .of _ (.save record) => if record.executionId = id then [] else waiting
  | .of _ _ => waiting

end Item

/-! ### Reading items -/

/-- What the request of a handle has done. -/
def deedsOf (handle : Nat) (log : List Item) : List Deed := log.filterMap (Item.deedOf? handle)

/-- What all requests have done of some kind. -/
def gathered {α : Type} (f : Deed → Option α) (log : List Item) : List α :=
  (log.filterMap Item.deed?).filterMap f

/-- The requests that have done something, in the order in which they did it. -/
def doers (p : Deed → Bool) (log : List Item) : List Nat := log.filterMap (Item.handle? p)

/-- The callbacks that were registered for an execution. -/
def registered (id : String) (log : List Item) : List Callback :=
  log.filterMap (Item.callback? id)

/-- The callbacks of an execution that wait to be called, in the order in which they were
registered. -/
def pending (id : String) (log : List Item) : List Callback := log.foldl (Item.pending id) []

section

variable {handle other : Nat} {id : String} {log more : List Item} {deeds : List Deed}
  {events : List Event} {α : Type} {f : Deed → Option α} {p : Deed → Bool}

@[simp] theorem deedsOf_append (handle : Nat) (log more : List Item) :
    deedsOf handle (log ++ more) = deedsOf handle log ++ deedsOf handle more :=
  List.filterMap_append

@[simp] theorem deedsOf_map_of (handle : Nat) (deeds : List Deed) :
    deedsOf handle (deeds.map (.of handle)) = deeds := by
  have own : Item.deedOf? handle ∘ Item.of handle = some := funext fun _ => if_pos rfl
  rw [deedsOf, List.filterMap_map, own, List.filterMap_some]

theorem deedsOf_map_of_ne (h : other ≠ handle) (deeds : List Deed) :
    deedsOf handle (deeds.map (.of other)) = [] := by
  rw [deedsOf, List.filterMap_map]
  exact List.filterMap_eq_nil_iff.2 fun deed _ => if_neg h

theorem mem_deedsOf {deed : Deed} (member : .of handle deed ∈ log) : deed ∈ deedsOf handle log :=
  List.mem_filterMap.2 ⟨_, member, if_pos rfl⟩

/-- What one request has done is among what all have done. -/
theorem mem_gathered {deed : Deed} (member : deed ∈ deedsOf handle log) {a : α}
    (counts : f deed = some a) : a ∈ gathered f log := by
  obtain ⟨item, inside, own⟩ := List.mem_filterMap.1 member
  cases item with
  | register => cases own
  | of other done =>
    rw [Item.deedOf?, Option.ite_none_right_eq_some, Option.some_inj] at own
    obtain ⟨-, rfl⟩ := own
    exact List.mem_filterMap.2 ⟨_, List.mem_filterMap.2 ⟨_, inside, rfl⟩, counts⟩

/-- Somebody may pass the gate. -/
theorem deedsOf_pass (handle : Nat) (next : Option Nat) :
    deedsOf handle (next.toList.map fun other => .of other .pass) =
      if some handle = next then [.pass] else [] := by
  cases next with
  | none => rfl
  | some other =>
    by_cases own : handle = other
    · simp [deedsOf, Item.deedOf?, own]
    · simp [deedsOf, Item.deedOf?, own, Ne.symm own]

@[simp] theorem gathered_append (log more : List Item) :
    gathered f (log ++ more) = gathered f log ++ gathered f more := by
  rw [gathered, List.filterMap_append, List.filterMap_append]
  rfl

@[simp] theorem gathered_register (id : String) (callback : Callback) :
    gathered f [.register id callback] = [] := rfl

@[simp] theorem gathered_map_of (handle : Nat) (deeds : List Deed) :
    gathered f (deeds.map (.of handle)) = deeds.filterMap f := by
  have own : Item.deed? ∘ Item.of handle = some := rfl
  rw [gathered, List.filterMap_map, own, List.filterMap_some]

theorem gathered_pass (none : f .pass = none) (next : Option Nat) :
    gathered f (next.toList.map fun other => .of other .pass) = [] := by
  cases next with
  | none => rfl
  | some other => simp [gathered, Item.deed?, none]

@[simp] theorem doers_append (log more : List Item) :
    doers p (log ++ more) = doers p log ++ doers p more := List.filterMap_append

theorem doers_map_of (handle : Nat) (deeds : List Deed) :
    doers p (deeds.map (.of handle)) =
      deeds.filterMap fun deed => if p deed then some handle else none := by
  rw [doers, List.filterMap_map]
  rfl

@[simp] theorem registered_append (id : String) (log more : List Item) :
    registered id (log ++ more) = registered id log ++ registered id more := List.filterMap_append

theorem registered_pass (id : String) (next : Option Nat) :
    registered id (next.toList.map fun other => .of other .pass) = [] := by
  cases next <;> rfl

/-! ### Callbacks that wait -/

theorem pending_append_singleton (id : String) (log : List Item) (item : Item) :
    pending id (log ++ [item]) = item.pending id (pending id log) := by
  rw [pending, List.foldl_append]
  rfl

/-- As long as no end of an execution is saved, the callbacks that are registered for it wait behind
those that did before. -/
theorem pending_of_unsaved
    (unsaved : ∀ record ∈ gathered Deed.record? more, record.executionId ≠ id) :
    pending id (log ++ more) = pending id log ++ registered id more := by
  induction more generalizing log with
  | nil => simp [registered]
  | cons item rest ih =>
    have split : log ++ item :: rest = (log ++ [item]) ++ rest := by simp
    rw [← List.singleton_append, gathered_append] at unsaved
    rw [split, ih fun record member => unsaved record (List.mem_append_right _ member),
      pending_append_singleton]
    cases item with
    | register other callback =>
      rw [Item.pending, registered, registered, List.filterMap_cons, Item.callback?]
      split
      · rw [List.append_assoc]
        rfl
      · rfl
    | of handle deed =>
      have same : (Item.of handle deed).pending id (pending id log) = pending id log := by
        cases deed with
        | save record => exact if_neg (unsaved record (List.mem_append_left _ List.mem_cons_self))
        | _ => rfl
      rw [same]
      rfl

/-- When an end is saved, no callback of its execution waits any more. -/
theorem pending_save (id : String) (log : List Item) (handle : Nat) (record : ExecutionRecord) :
    pending id (log ++ [.of handle (.save record)]) =
      if record.executionId = id then [] else pending id log :=
  pending_append_singleton id log _

end

/-! ### The end of a request -/

/-- How an end is made known: it is told, the callbacks that wait for it are called one after the
other, and the request is answered. -/
def notices (response : Response) (callbacks : List Callback) (time : Nat) : List Deed :=
  .tell (Coordinator.endEvent response) ::
    (callbacks.map (fun callback => .call callback response time) ++ [.answer response])

/-- What a request does when it ends: its end is saved and made known. -/
def closing (workflowId : String) (response : Response) (recordedAt : Timestamp)
    (callbacks : List Callback) (time : Nat) : List Deed :=
  .save (.ofResponse workflowId response recordedAt) :: notices response callbacks time

section

variable {workflowId : String} {response : Response} {recordedAt : Timestamp}
  {callbacks : List Callback} {time handle : Nat} {id : String} {log : List Item}
  {events : List Event} {p : Deed → Bool}

@[simp] theorem event?_tells : (events.map Deed.tell).filterMap Deed.event? = events := by
  have own : Deed.event? ∘ Deed.tell = some := rfl
  rw [List.filterMap_map, own, List.filterMap_some]

@[simp] theorem record?_tells : (events.map Deed.tell).filterMap Deed.record? = [] := by
  rw [List.filterMap_map]
  exact List.filterMap_eq_nil_iff.2 fun _ _ => rfl

@[simp] theorem called?_tells : (events.map Deed.tell).filterMap Deed.called? = [] := by
  rw [List.filterMap_map]
  exact List.filterMap_eq_nil_iff.2 fun _ _ => rfl

theorem filterMap_notices {α : Type} (f : Deed → Option α) :
    (notices response callbacks time).filterMap f =
      (f (.tell (Coordinator.endEvent response))).toList ++
        (callbacks.filterMap (fun callback => f (.call callback response time)) ++
          (f (.answer response)).toList) := by
  have single (deed : Deed) : [deed].filterMap f = (f deed).toList := by
    rw [List.filterMap_cons]
    cases f deed <;> rfl
  rw [notices, ← List.singleton_append, List.filterMap_append, List.filterMap_append,
    List.filterMap_map, single, single]
  rfl

theorem filterMap_closing {α : Type} (f : Deed → Option α) :
    (closing workflowId response recordedAt callbacks time).filterMap f =
      (f (.save (.ofResponse workflowId response recordedAt))).toList ++
        (notices response callbacks time).filterMap f := by
  rw [closing, List.filterMap_cons]
  cases f (.save (.ofResponse workflowId response recordedAt)) <;> rfl

@[simp] theorem event?_closing : (closing workflowId response recordedAt callbacks time).filterMap
    Deed.event? = [Coordinator.endEvent response] := by
  rw [filterMap_closing, filterMap_notices]
  simp [Deed.event?]

@[simp] theorem record?_notices :
    (notices response callbacks time).filterMap Deed.record? = [] := by
  rw [filterMap_notices]
  simp [Deed.record?]

@[simp] theorem record?_closing : (closing workflowId response recordedAt callbacks time).filterMap
    Deed.record? = [.ofResponse workflowId response recordedAt] := by
  rw [filterMap_closing, record?_notices]
  rfl

@[simp] theorem called?_closing : (closing workflowId response recordedAt callbacks time).filterMap
    Deed.called? = callbacks.map fun callback => callback.call response time := by
  rw [filterMap_closing, filterMap_notices]
  simp [Deed.called?]

theorem summons?_closing (id : String) :
    (closing workflowId response recordedAt callbacks time).filterMap (Deed.summons? id) =
      if response.executionId = id then callbacks else [] := by
  rw [filterMap_closing, filterMap_notices]
  split <;> next own => simp [Deed.summons?, own]

/-- Only whoever comes to the gate or passes it is counted there. -/
theorem doers_eq_nil (only : ∀ deed, p deed = true → deed = .reach ∨ deed = .pass)
    {deeds : List Deed} (reach : .reach ∉ deeds) (pass : .pass ∉ deeds) :
    doers p (deeds.map (.of handle)) = [] := by
  rw [doers_map_of]
  refine List.filterMap_eq_nil_iff.2 fun deed member => if_neg fun holds => ?_
  rcases only deed holds with rfl | rfl
  · exact reach member
  · exact pass member

theorem doers_tells (only : ∀ deed, p deed = true → deed = .reach ∨ deed = .pass) :
    doers p ((events.map Deed.tell).map (.of handle)) = [] := by
  refine doers_eq_nil only (fun member => ?_) fun member => ?_ <;> simp at member

theorem doers_closing (only : ∀ deed, p deed = true → deed = .reach ∨ deed = .pass) :
    doers p ((closing workflowId response recordedAt callbacks time).map (.of handle)) = [] := by
  refine doers_eq_nil only (fun member => ?_) fun member => ?_ <;>
    simp [closing, notices] at member

@[simp] theorem registered_map_of (deeds : List Deed) :
    registered id (deeds.map (.of handle)) = [] := by
  rw [registered, List.filterMap_map]
  exact List.filterMap_eq_nil_iff.2 fun _ _ => rfl

/-- At the end of an execution its callbacks are called, and those of the others wait. -/
theorem pending_closing : pending id
    (log ++ (closing workflowId response recordedAt callbacks time).map (.of handle)) =
      if response.executionId = id then [] else pending id log := by
  rw [closing, List.map_cons, List.append_cons, pending_of_unsaved, registered_map_of,
    List.append_nil, pending_save]
  · rfl
  · rw [gathered_map_of, record?_notices]
    exact fun _ => nofun

end

end Stepwise
