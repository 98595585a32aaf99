import Stepwise.Proofs.Run.Trail

/-!
# What happens aside

While a node waits, time passes and others go on. `Aside ids` says what that leaves alone for the
nodes of some ids: unless the run is cancelled they stay as they are, no call is made in their name
and nothing is told of them. What happens to nodes of other ids happens aside
(`Changes.happensAside`).
-/

namespace Stepwise

/-- What happens between two states leaves the nodes of some ids alone, unless it cancels the
run. -/
structure Aside (ids : List String) (s s' : RunState) : Prop where
  kept : s.context.cancelled = true → s'.context.cancelled = true
  now_le : s.now ≤ s'.now
  tickets_le : s.world.tickets ≤ s'.world.tickets
  phases : s'.context.cancelled = false → ∀ id ∈ ids, s'.context.phase id = s.context.phase id
  calls : ∃ made, s'.world.calls = s.world.calls ++ made ∧ ∀ entry ∈ made, entry.caller ∉ ids
  tells : ∃ events, s.world.Tells s'.world events ∧
    ∀ event ∈ events, ∀ id ∈ ids, event.nodeId? ≠ some id

variable {engine : Engine} {root : Node} {manner : Manner} {ids others more : List String}
  {s s' s'' : RunState}

namespace Aside

/-- To do nothing goes aside. -/
theorem refl (ids : List String) (s : RunState) : Aside ids s s where
  kept := id
  now_le := Nat.le_refl _
  tickets_le := Nat.le_refl _
  phases _ _ _ := rfl
  calls := ⟨[], (List.append_nil _).symm, nofun⟩
  tells := ⟨[], .of_eq rfl, nofun⟩

theorem live (h : Aside ids s s') (live : s'.context.cancelled = false) :
    s.context.cancelled = false :=
  eq_false_of_ne_true fun dead => ne_true_of_eq_false live (h.kept dead)

/-- What goes aside twice goes aside. -/
theorem trans (first : Aside ids s s') (second : Aside ids s' s'') : Aside ids s s'' := by
  obtain ⟨made, calls, aside⟩ := first.calls
  obtain ⟨made', calls', aside'⟩ := second.calls
  obtain ⟨events, tells, silent⟩ := first.tells
  obtain ⟨events', tells', silent'⟩ := second.tells
  refine ⟨fun dead => second.kept (first.kept dead), Nat.le_trans first.now_le second.now_le,
    Nat.le_trans first.tickets_le second.tickets_le, fun live id member => ?phases,
    ⟨made ++ made', ?calls, fun entry member => ?callers⟩,
    ⟨events ++ events', tells.trans tells', fun event member => ?events⟩⟩
  case phases =>
    exact (second.phases live id member).trans (first.phases (second.live live) id member)
  case calls => rw [calls', calls, List.append_assoc]
  case callers => exact (List.mem_append.1 member).elim (aside entry) (aside' entry)
  case events => exact (List.mem_append.1 member).elim (silent event) (silent' event)

/-- What leaves some nodes alone leaves fewer alone as well. -/
theorem mono (h : Aside more s s') (subset : ids ⊆ more) : Aside ids s s' := by
  obtain ⟨made, calls, aside⟩ := h.calls
  obtain ⟨events, tells, silent⟩ := h.tells
  exact ⟨h.kept, h.now_le, h.tickets_le, fun live id member => h.phases live id (subset member),
    ⟨made, calls, fun entry member inside => aside entry member (subset inside)⟩,
    ⟨events, tells, fun event member id inside => silent event member id (subset inside)⟩⟩

/-- Time passes. -/
theorem later (ids : List String) (s : RunState) (time : Nat) : Aside ids s (Run.later s time) where
  kept := id
  now_le := Nat.le_max_left ..
  tickets_le := Nat.le_refl _
  phases _ _ _ := rfl
  calls := ⟨[], (List.append_nil _).symm, nofun⟩
  tells := ⟨[], .of_eq rfl, nofun⟩

/-- A node of another id makes a call. -/
theorem place (s : RunState) (engine : Engine) (call : Call) {caller : String}
    (other : caller ∉ ids) : Aside ids s (s.place engine caller call).2 where
  kept := id
  now_le := Nat.le_refl _
  tickets_le := Nat.le_refl _
  phases _ _ _ := rfl
  calls := ⟨[⟨caller, s.now, s.context, call⟩], rfl, fun _ member =>
      List.mem_singleton.1 member ▸ other⟩
  tells := ⟨[], .of_eq rfl, nofun⟩

/-- A ticket is given out. -/
theorem takeTicket (ids : List String) (s : RunState) : Aside ids s s.takeTicket.2 where
  kept := id
  now_le := Nat.le_refl _
  tickets_le := Nat.le_succ _
  phases _ _ _ := rfl
  calls := ⟨[], (List.append_nil _).symm, nofun⟩
  tells := ⟨[], .of_eq rfl, nofun⟩

/-- Somebody outside acts on the run. -/
theorem applyAll (ids : List String) (s : RunState) (effects : List Effect) :
    Aside ids s (s.applyAll effects) where
  kept dead := by rw [s.cancelled_applyAll, dead, Bool.true_or]
  now_le := Nat.le_of_eq (s.now_applyAll effects).symm
  tickets_le := Nat.le_of_eq (s.tickets_applyAll effects).symm
  phases live id _ := s.phase_applyAll_of_live live id
  calls := ⟨[], (s.calls_applyAll effects).trans (List.append_nil _).symm, nofun⟩
  tells := ⟨[], .of_eq (s.log_applyAll effects), nofun⟩

/-- What calls do as they begin is put off, or is no longer. -/
theorem note (ids : List String) (s : RunState) (openings : List Effect) :
    Aside ids s { s with world := { s.world with openings := openings } } where
  kept := id
  now_le := Nat.le_refl _
  tickets_le := Nat.le_refl _
  phases _ _ _ := rfl
  calls := ⟨[], (List.append_nil _).symm, nofun⟩
  tells := ⟨[], .of_eq rfl, nofun⟩

/-- What was put off is done. -/
theorem flush (ids : List String) (s : RunState) : Aside ids s s.flush :=
  (note ids s []).trans (applyAll ids _ s.world.openings)

end Aside

/-! ## Changes to other nodes -/

/-- What is told of a change is about the nodes that it changes. -/
theorem Alters.tells (h : Alters root ids s s') : ∃ events, s.world.Tells s'.world events ∧
    ∀ event ∈ events, ∃ id ∈ ids, event.nodeId? = some id := by
  have one {event : Event} {id : String} (member : id ∈ ids) (own : event.nodeId? = some id) :
      ∀ other ∈ [event], ∃ id ∈ ids, other.nodeId? = some id := by
    intro other inside
    rw [List.mem_singleton.1 inside]
    exact ⟨id, member, own⟩
  cases h with
  | quiet _ tells | halt _ _ tells | rearm _ _ _ tells => exact ⟨[], tells, nofun⟩
  | begin _ member _ _ _ tells => exact ⟨_, tells, one member rfl⟩
  | retry _ member _ _ tells => exact ⟨_, tells, one member rfl⟩
  | close _ member _ _ _ tells => exact ⟨_, tells, one member (Ending.nodeId?_event ..)⟩
  | @drop _ child _ _ members _ _ tells => exact ⟨_, tells, one (members child.mem_ids_self) rfl⟩

/-- Calls are made by nodes that run. -/
theorem Calling.made (h : Calling manner ids s s') :
    ∃ made, s'.world.calls = s.world.calls ++ made ∧
      ∀ entry ∈ made, entry.caller ∈ ids ∧
        ((manner = .deaf → s.context.cancelled = false) →
          s.context.state entry.caller = .running) := by
  cases h with
  | silent same => exact ⟨[], same.trans (List.append_nil _).symm, nofun⟩
  | @call entry made member running =>
    refine ⟨[entry], made, fun other inside => ?_⟩
    rw [List.mem_singleton.1 inside]
    exact ⟨member, running⟩

namespace Changes

/-- What is told of changes is about the nodes that they change. -/
theorem tells (changes : Changes root manner ids s s') : ∃ events, s.world.Tells s'.world events ∧
    ∀ event ∈ events, ∃ id ∈ ids, event.nodeId? = some id := by
  induction changes with
  | refl => exact ⟨[], .of_eq rfl, nofun⟩
  | tail _ change ih =>
    obtain ⟨events, tells, about⟩ := ih
    obtain ⟨told, tells', about'⟩ := change.alters.tells
    exact ⟨events ++ told, tells.trans tells', fun event member =>
      (List.mem_append.1 member).elim (about event) (about' event)⟩

/-- The calls that changes make are made in the name of the nodes that they change. -/
theorem calls (changes : Changes root manner ids s s') :
    ∃ made, s'.world.calls = s.world.calls ++ made ∧ ∀ entry ∈ made, entry.caller ∈ ids := by
  induction changes with
  | refl => exact ⟨[], (List.append_nil _).symm, nofun⟩
  | tail _ change ih =>
    obtain ⟨made, calls, own⟩ := ih
    obtain ⟨more, calls', own'⟩ := change.calls.made
    refine ⟨made ++ more, ?_, fun entry member => ?_⟩
    · rw [calls', calls, List.append_assoc]
    · exact (List.mem_append.1 member).elim (own entry) fun inside => (own' entry inside).1

/-- What a run does at one time to the nodes of some ids leaves all others alone. -/
theorem happensAside (changes : Changes root manner others s s')
    (acts : Acts engine manner more s s') (apart : ids.Disjoint others) : Aside ids s s' := by
  obtain ⟨made, calls, own⟩ := changes.calls
  obtain ⟨events, tells, about⟩ := changes.tells
  refine ⟨acts.cancelled, Nat.le_of_eq acts.now.symm, acts.tickets_le, fun live id member => ?_,
    ⟨made, calls, fun entry inside member => ?_⟩,
    ⟨events, tells, fun event inside id member same => ?_⟩⟩
  · exact changes.aside live (apart member)
  · exact apart member (own entry inside)
  · obtain ⟨other, hother, named⟩ := about event inside
    rw [same] at named
    cases named
    exact apart member hother

end Changes

end Stepwise
