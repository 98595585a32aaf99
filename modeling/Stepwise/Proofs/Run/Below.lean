import Stepwise.Proofs.Run.Above

/-!
# What is below a pending node

In the run of a tree with pairwise distinct ids nothing below a pending node has left its pending
phase: a node starts below one that runs, and whatever makes a node pending again does so to all
that is below. So nothing in the tree of a node has begun when it starts.
-/

namespace Stepwise

namespace Context

/-- Nothing has happened to the children of a node to which nothing has happened. -/
def Downward (context : Context) (root : Node) : Prop :=
  ∀ parent ∈ root.preorder, ∀ child ∈ parent.children,
    context.phase parent.id = .pending → context.phase child.id = .pending

variable {context : Context} {root node : Node}

/-- In a tree in which nothing has begun nothing is done below nodes that are pending. -/
theorem Downward.of_untouched (untouched : context.Untouched root) : context.Downward root :=
  fun _ inside child member _ => untouched child.id
    (Node.ids_subset_of_mem_preorder inside (Node.ids_child_subset member child.mem_ids_self))

/-- Nothing has happened in the tree of a node to which nothing has happened. -/
theorem Downward.untouched (downward : context.Downward root) (inside : node ∈ root.preorder)
    (pending : context.phase node.id = .pending) : context.Untouched node := by
  induction node using Node.induction with
  | step node ih =>
    intro id hid
    rw [Node.ids_eq, List.mem_cons] at hid
    rcases hid with rfl | hid
    · exact pending
    · obtain ⟨child, member, hid⟩ := Node.mem_idsAll.1 hid
      have within := Node.mem_preorder_child inside member
      exact ih child member within (downward node inside child member pending) id hid

/-- Only a pending node is pending once it is halted. -/
theorem halted_eq_pending {now : Nat} {id : String} :
    context.halted now id = .pending ↔ context.phase id = .pending := by
  by_cases running : context.state id = .running
  · refine iff_of_false (fun same => ?_) fun same => ?_
    · have state := context.state_halted now id
      rw [same, if_pos running] at state
      cases state
    · rw [state, same] at running
      cases running
  · rw [context.halted_of_ne running]

end Context

variable {root : Node} {manner : Manner} {ids : List String} {s s' : RunState}

/-- Whatever is done within a tree, nothing is begun below nodes that are pending. -/
theorem Alters.downward (alters : Alters root ids s s') (distinct : root.ids.Nodup)
    (downward : s.context.Downward root) : s'.context.Downward root := by
  intro parent inside child member pending
  have kept (same : ∀ id, s'.context.phase id = .pending ↔ s.context.phase id = .pending) :
      s'.context.phase child.id = .pending :=
    (same child.id).2 (downward parent inside child member ((same parent.id).1 pending))
  -- What runs before the change and does not become pending was not pending and is not.
  have busy {own : String} {after : Phase} (runs : s.context.state own = .running)
      (phases : s'.context.phase own = after)
      (others : ∀ id, own ≠ id → s'.context.phase id = s.context.phase id)
      (leaves : after.state ≠ .pending) (id : String) :
      s'.context.phase id = .pending ↔ s.context.phase id = .pending := by
    by_cases same : own = id
    · subst same
      refine iff_of_false (fun idle => leaves ?_) fun idle => ?_
      · rw [← phases, idle]
        rfl
      · rw [Context.state, idle] at runs
        cases runs
    · rw [others id same]
  cases alters with
  | quiet same =>
    refine kept fun id => ?_
    rw [same]
  | halt _ phases =>
    refine kept fun id => ?_
    rw [phases]
    exact Context.halted_eq_pending
  | @begin node _ _ _ above phases =>
    have other : node.id ≠ parent.id := by
      intro own
      rw [phases, if_pos own] at pending
      cases pending
    rw [phases, if_neg other] at pending
    have apart : node.id ≠ child.id := by
      intro own
      rcases above with rfl | ⟨top, inside', member', runs⟩
      · have deep := Node.id_mem_idsAll_children inside member
        rw [← own] at deep
        exact Node.id_notMem_children distinct deep
      · have same := Node.parent_unique distinct inside inside' member member' own.symm
        subst same
        rw [Context.state, pending] at runs
        cases runs
    rw [phases, if_neg apart]
    exact downward parent inside child member pending
  | @retry node since retries _ _ _ runs phases =>
    have running : s.context.state node.id = .running := congrArg Phase.state runs
    refine kept (busy running ((phases node.id).trans (if_pos rfl))
      (fun id other => (phases id).trans (if_neg other)) ?_)
    intro same
    cases same
  | @rearm node inside' _ phases =>
    rw [phases] at pending ⊢
    split at pending
    · next deep =>
      rw [if_pos (Node.child_id_mem_idsAll_children distinct inside inside' member deep)]
    · split
      · rfl
      · exact downward parent inside child member pending
  | @close node _ ending result _ _ runs _ phases =>
    refine kept (busy runs ((phases node.id).trans (if_pos rfl))
      (fun id other => (phases id).trans (if_neg other)) ?_)
    have started : (s.context.phase node.id).state = .running := runs
    rw [Phase.state_finish, if_pos started]
    exact (NodeState.isTerminal_iff.1 (Phase.isTerminal_state ending)).1
  | drop _ _ _ _ phases =>
    refine kept fun id => ?_
    rw [phases]
    split
    · exact Context.halted_eq_pending
    · rfl

/-- However far a run has come, nothing has happened below a node to which nothing
has happened. -/
theorem Changes.downward (changes : Changes root manner ids s s') (distinct : root.ids.Nodup)
    (downward : s.context.Downward root) : s'.context.Downward root :=
  changes.invariant (fun s => s.context.Downward root)
    (fun _ _ change kept => change.alters.downward distinct kept) downward

end Stepwise
