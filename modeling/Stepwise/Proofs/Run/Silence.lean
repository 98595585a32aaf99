import Stepwise.Proofs.Run.Trail

/-!
# Cancellations that nobody is told of

A node that is cancelled as it ends is told of, and so is the top of a tree that is dropped. What
else runs in that tree is cancelled with it in silence, and when a run as a whole is cancelled, by
its time limit or from outside, all that runs is. So one hears of a cancelled node from the node
itself or from one above it, unless the run has been told to have started and nothing more.
-/

namespace Stepwise

/-- In a tree with pairwise distinct ids no child has the id of the top. -/
theorem Node.id_notMem_idsAll_children {parent node : Node} (h : node.ids.Nodup)
    (inside : parent ∈ node.preorder) : node.id ∉ idsAll parent.children := by
  intro deep
  obtain ⟨child, member, hid⟩ := mem_idsAll.1 deep
  apply id_notMem_children h
  rcases mem_preorder.1 inside with rfl | ⟨top, htop, below⟩
  · exact deep
  · exact idsAll_subset htop (ids_subset_of_mem_preorder below (ids_child_subset member hid))

section

variable {id : String} {events since told : List Event}

/-- More has been told since a start, unless it is another start. -/
theorem Since.extend (h : Since id events since)
    (unstarted : ∀ nodeType, .nodeStarted id nodeType ∉ told) :
    Since id (events ++ told) (since ++ told) := by
  obtain ⟨earlier, nodeType, rfl, last⟩ := h
  refine ⟨earlier, nodeType, by simp, fun other member => ?_⟩
  rcases List.mem_append.1 member with member | member
  · exact last other member
  · exact unstarted other member

/-- What is told of others does not end a node. -/
theorem Unended.extend (h : Unended id events) (aside : ∀ event ∈ told, event.nodeId? ≠ some id) :
    Unended id (events ++ told) := by
  obtain ⟨since, start, going⟩ := h
  refine ⟨since ++ told, start.extend fun _ member => aside _ member rfl, fun event member => ?_⟩
  rcases List.mem_append.1 member with member | member
  · exact going event member
  · rintro ⟨finish, rfl⟩
    exact aside _ member (finish.nodeId?_event id)

end

variable {root n : Node} {manner : Manner} {ids : List String} {s s' : RunState}
  {events told : List Event}

namespace Alters

/-- A node that is told to start was pending. -/
theorem pending_of_started (alters : Alters root ids s s') (tells : s.world.Tells s'.world told)
    {id : String} {nodeType : NodeType} (started : .nodeStarted id nodeType ∈ told) :
    s.context.phase id = .pending := by
  cases alters with
  | quiet _ tells' | halt _ _ tells' | rearm _ _ _ tells' =>
    rw [tells.unique tells'] at started
    cases started
  | begin _ _ pending _ _ tells' =>
    rw [tells.unique tells'] at started
    obtain ⟨rfl, -⟩ := Event.nodeStarted.inj (List.mem_singleton.1 started)
    exact pending
  | retry _ _ _ _ tells' | drop _ _ _ _ _ tells' =>
    rw [tells.unique tells'] at started
    exact nomatch List.mem_singleton.1 started
  | @close _ _ ending _ _ _ _ _ _ tells' =>
    rw [tells.unique tells'] at started
    have same := List.mem_singleton.1 started
    cases ending <;> cases same

/-- Once the root is cancelled it stays so, and nothing more is told of it. -/
theorem root_stays (alters : Alters root ids s s') (distinct : root.ids.Nodup)
    (tells : s.world.Tells s'.world told) (ended : s.context.state root.id = .cancelled) :
    s'.context.state root.id = .cancelled ∧ ∀ event ∈ told, event.nodeId? ≠ some root.id := by
  -- A node that was in another state is another node.
  have apart {id : String} {state : NodeState} (h : s.context.state id = state)
      (other : state ≠ .cancelled) : id ≠ root.id := by
    rintro rfl
    exact other (h.symm.trans ended)
  have silent {event : Event} {id : String} (about : event.nodeId? = some id) (ne : id ≠ root.id) :
      ∀ other ∈ [event], other.nodeId? ≠ some root.id := by
    intro other member same
    rw [List.mem_singleton.1 member, about] at same
    exact ne (Option.some.inj same)
  cases alters with
  | quiet same tells' =>
    rw [tells.unique tells', Context.state, same]
    exact ⟨ended, fun _ member => absurd member List.not_mem_nil⟩
  | halt _ phases tells' =>
    rw [tells.unique tells', Context.state, phases, Context.state_halted, ended]
    exact ⟨rfl, fun _ member => absurd member List.not_mem_nil⟩
  | begin _ _ pending _ phases tells' =>
    have ne := apart (congrArg Phase.state pending : s.context.state _ = .pending) (by decide)
    rw [tells.unique tells', Context.state, phases, if_neg ne]
    exact ⟨ended, silent rfl ne⟩
  | retry _ _ running phases tells' =>
    have runs : s.context.state _ = .running := congrArg Phase.state running
    have ne := apart runs (by decide)
    rw [tells.unique tells', Context.state, phases, if_neg ne]
    exact ⟨ended, silent rfl ne⟩
  | rearm inside _ phases tells' =>
    rw [tells.unique tells', Context.state, phases,
      if_neg (Node.id_notMem_idsAll_children distinct inside)]
    exact ⟨ended, fun _ member => absurd member List.not_mem_nil⟩
  | close _ _ running _ phases tells' =>
    have ne := apart running (by decide)
    rw [tells.unique tells', Context.state, phases, if_neg ne]
    exact ⟨ended, silent (Ending.nodeId?_event ..) ne⟩
  | @drop _ child inside member _ _ phases tells' =>
    have outside : root.id ∉ child.ids := fun hid =>
      Node.id_notMem_idsAll_children distinct inside (Node.idsAll_subset member hid)
    have ne : child.id ≠ root.id := fun same => outside (same ▸ child.mem_ids_self)
    rw [tells.unique tells', Context.state, phases, if_neg outside]
    exact ⟨ended, silent rfl ne⟩

/-- A node is cancelled as one that ran: with the run, or with a node above it or itself, of which
it is told. -/
theorem cancelled_cases (alters : Alters root ids s s') (distinct : root.ids.Nodup)
    (upward : s.context.Upward root) (tells : s.world.Tells s'.world told)
    (inside : n ∈ root.preorder) (ended : s'.context.state n.id = .cancelled) :
    s.context.state n.id = .cancelled ∨ s.context.state n.id = .running ∧
      ((s.context.state root.id = .running ∧ s'.context.state root.id = .cancelled ∧ told = []) ∨
        ∃ m ∈ root.preorder, n ∈ m.preorder ∧ told = [.nodeCancelled m.id]) := by
  cases alters with
  | quiet same =>
    rw [Context.state, same] at ended
    exact .inl ended
  | halt _ phases tells' =>
    rw [Context.state, phases, Context.state_halted] at ended
    split at ended
    · next running =>
      have top := upward.above root.mem_preorder_self inside running
      refine .inr ⟨running, .inl ⟨top, ?_, tells.unique tells'⟩⟩
      rw [Context.state, phases, Context.state_halted, if_pos top]
    · exact .inl ended
  | begin _ _ _ _ phases | retry _ _ _ phases | rearm _ _ phases =>
    -- These nodes run or wait now; no other one has changed.
    rw [Context.state, phases] at ended
    split at ended
    · cases ended
    · exact .inl ended
  | @close node _ ending _ inside' _ running _ phases tells' =>
    rw [Context.state, phases] at ended
    split at ended
    · next own =>
      obtain rfl := List.inj_on_of_nodup_map distinct inside' inside own
      refine .inr ⟨running, .inr ⟨node, inside, node.mem_preorder_self, ?_⟩⟩
      rw [Phase.state_finish, show (s.context.phase node.id).state = .running from running,
        if_pos rfl] at ended
      rw [tells.unique tells']
      cases ending with
      | cancelled => rfl
      | completed | failed => cases ended
    · exact .inl ended
  | @drop _ child inside' member _ _ phases tells' =>
    have within := Node.mem_preorder_child inside' member
    rw [Context.state, phases] at ended
    split at ended
    · next hid =>
      rw [Context.state_halted] at ended
      split at ended
      · next running =>
        exact .inr ⟨running, .inr ⟨child, within,
          Node.mem_preorder_of_id_mem distinct inside within hid, tells.unique tells'⟩⟩
      · exact .inl ended
    · exact .inl ended

end Alters

/-- One hears of the cancellation of a node, since it started last, from the node or from one above
it, or the whole run was cancelled and is still told to go on. -/
def TellsOf (root n : Node) (s : RunState) (events : List Event) : Prop :=
  ∃ since, Since n.id events since ∧
    ((∃ m ∈ root.preorder, n ∈ m.preorder ∧ .nodeCancelled m.id ∈ since) ∨
      (s.context.state root.id = .cancelled ∧ Unended root.id events))

/-- Every cancellation within a tree is told, of the node or of one above it. -/
theorem Alters.heard (alters : Alters root ids s s') (distinct : root.ids.Nodup)
    (upward : s.context.Upward root) (tale : Tale root s events)
    (tells : s.world.Tells s'.world told)
    (heard : ∀ n ∈ root.preorder, s.context.state n.id = .cancelled → TellsOf root n s events)
    (inside : n ∈ root.preorder) (ended : s'.context.state n.id = .cancelled) :
    TellsOf root n s' (events ++ told) := by
  rcases alters.cancelled_cases distinct upward tells inside ended with
    before | ⟨running, ⟨top, halted, rfl⟩ | ⟨m, within, below, rfl⟩⟩
  · obtain ⟨since, start, why⟩ := heard n inside before
    refine ⟨since ++ told, start.extend fun _ started => ?_, ?_⟩
    · rw [Context.state, alters.pending_of_started tells started] at before
      cases before
    · rcases why with ⟨m, within, below, member⟩ | ⟨whole, going⟩
      · exact .inl ⟨m, within, below, List.mem_append_left _ member⟩
      · obtain ⟨stays, aside⟩ := alters.root_stays distinct tells whole
        exact .inr ⟨stays, going.extend aside⟩
  · obtain ⟨_, start, -⟩ := tale.unended_of_running running
    rw [List.append_nil]
    exact ⟨_, start, .inr ⟨halted, tale.unended_of_running top⟩⟩
  · obtain ⟨since, start, -⟩ := tale.unended_of_running running
    refine ⟨since ++ [.nodeCancelled m.id], start.extend (by simp), .inl ⟨m, within, below, ?_⟩⟩
    exact List.mem_append_right _ List.mem_cons_self

/-- So is every one in a run that began with nothing begun. -/
theorem Changes.heard (changes : Changes root manner ids s s') (distinct : root.ids.Nodup)
    (fresh : ∀ id, s.context.phase id = .pending) :
    ∃ events, s.world.Tells s'.world events ∧ Tale root s' events ∧
      ∀ n ∈ root.preorder, s'.context.state n.id = .cancelled → TellsOf root n s' events := by
  have upward : s.context.Upward root := .of_untouched fun id _ => fresh id
  induction changes with
  | refl =>
    obtain ⟨events, tells, tale⟩ := Changes.tale (.refl : Changes root manner ids s s) distinct fresh
    refine ⟨events, tells, tale, fun n _ ended => ?_⟩
    rw [Context.state, fresh] at ended
    cases ended
  | tail before change ih =>
    obtain ⟨events, tells, tale, heard⟩ := ih
    have upward := Changes.upward before distinct upward
    obtain ⟨told, tells', tale'⟩ := change.alters.tale distinct upward tale
    exact ⟨events ++ told, tells.trans tells', tale', fun n inside ended =>
      change.alters.heard distinct upward tale tells' heard inside ended⟩

namespace Run

variable {engine : Engine} {limit : Option Duration} {s₀ : RunState}

/-- However far a run of a tree with distinct ids has come, one has heard of the cancellation of a
node from it or from one above it since it started last, unless the run was cancelled as a whole;
then the last that was told of the root is that it runs. -/
theorem cancellations_heard {p : RunState × Stage} (h : Reaches engine root limit s₀ p)
    (nodes : s₀.context.nodes = []) (distinct : root.ids.Nodup) :
    ∃ events, s₀.world.Tells p.1.world events ∧
      ∀ n ∈ root.preorder, p.1.context.state n.id = .cancelled →
        ∃ since, Since n.id events since ∧
          ((∃ m ∈ root.preorder, n ∈ m.preorder ∧ .nodeCancelled m.id ∈ since) ∨
            (p.1.context.state root.id = .cancelled ∧ Unended root.id events)) := by
  have untouched := s₀.context.untouched_of_nodes nodes root
  have fresh := s₀.context.phase_of_nodes nodes
  have changes := (h.kept untouched distinct).changes
  obtain ⟨events, tells, -, heard⟩ := Changes.heard changes distinct fresh
  exact ⟨events, tells, heard⟩

/-- A task alone. -/
def lone : Node := .make "slow" (.task ⟨"work", [], [], 0, none, none⟩) []

/-- The task when its run is out of time, after two milliseconds. -/
def overdue : RunState × Stage :=
  let begun := launch slow lone (some (.ofMillis 2)) outset
  step slow (later begun.1 2) begun.2 .expire

/-- The time of the lone task runs out while it waits. -/
theorem reaches_overdue : Reaches slow lone (some (.ofMillis 2)) outset overdue :=
  .single (.any slow _ _ 2 .expire)

/-- The cancellation of the lone task is heard, although nobody tells of it. -/
theorem cancellations_heard_overdue : lone.ids.Nodup ∧
    Reaches slow lone (some (.ofMillis 2)) outset overdue ∧
    overdue.1.context.state "slow" = .cancelled ∧
    ∃ events since, outset.world.Tells overdue.1.world events ∧ Since "slow" events since ∧
      ((∃ m ∈ lone.preorder, lone ∈ m.preorder ∧ .nodeCancelled m.id ∈ since) ∨
        (overdue.1.context.state "slow" = .cancelled ∧ Unended "slow" events)) := by
  have distinct : lone.ids.Nodup := by decide
  obtain ⟨events, tells, heard⟩ := cancellations_heard reaches_overdue rfl distinct
  obtain ⟨since, start, why⟩ := heard lone lone.mem_preorder_self rfl
  exact ⟨distinct, reaches_overdue, rfl, events, since, tells, start, why⟩

/-- A run may end with a cancelled node and nothing told of it since it started. -/
theorem not_all_cancellations_told : ¬ ∀ (engine : Engine) (root : Node) (limit : Option Duration)
    (s₀ : RunState) (p : RunState × Stage), Reaches engine root limit s₀ p →
    s₀.context.nodes = [] → root.ids.Nodup → (∃ outcome, p.2 = .ended outcome) →
    ∀ n ∈ root.preorder, p.1.context.state n.id = .cancelled →
      ∃ events since, s₀.world.Tells p.1.world events ∧ Since n.id events since ∧
        .nodeCancelled n.id ∈ since := by
  intro all
  obtain ⟨events, since, tells, ⟨earlier, nodeType, split, -⟩, member⟩ := all slow lone _ outset
    overdue reaches_overdue rfl (by decide) ⟨_, rfl⟩ lone lone.mem_preorder_self rfl
  have told : [.nodeStarted "slow" .task] = events := tells
  have inside : .nodeCancelled "slow" ∈ events := by
    rw [split]
    exact List.mem_append_right _ (List.mem_cons_of_mem _ member)
  rw [← told] at inside
  exact nomatch List.mem_singleton.1 inside

end Run

end Stepwise
