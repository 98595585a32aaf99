import Stepwise.Proofs.Run.Change

/-!
# What is above a running node

In the run of a tree with pairwise distinct ids all nodes above a running node run. A node starts
below one that runs, it ends when no child of it runs, and whatever else stops a node stops all
that is below.
-/

namespace Stepwise

/-- In a tree with pairwise distinct ids a tree that holds a node holds its children. -/
theorem Node.child_id_mem_ids {n m child node : Node} (h : node.ids.Nodup)
    (hn : n ∈ node.preorder) (hm : m ∈ node.preorder) (hchild : child ∈ n.children)
    (hid : n.id ∈ m.ids) :
    child.id ∈ m.ids :=
  ids_subset_of_mem_preorder (mem_preorder_of_id_mem h hn hm hid)
    (ids_child_subset hchild child.mem_ids_self)

theorem Node.child_id_mem_idsAll_children {n m child node : Node} (h : node.ids.Nodup)
    (hn : n ∈ node.preorder) (hm : m ∈ node.preorder) (hchild : child ∈ n.children)
    (hid : n.id ∈ idsAll m.children) : child.id ∈ idsAll m.children := by
  obtain ⟨top, htop, hid⟩ := mem_idsAll.1 hid
  have below := mem_preorder_child hm htop
  exact mem_idsAll.2 ⟨top, htop, child_id_mem_ids h hn below hchild hid⟩

namespace Context

/-- The parent of a running node runs. -/
def Upward (context : Context) (root : Node) : Prop :=
  ∀ parent ∈ root.preorder, ∀ child ∈ parent.children,
    context.state child.id = .running → context.state parent.id = .running

variable {context : Context} {root : Node}

/-- In a tree in which nothing has begun nobody runs. -/
theorem Upward.of_untouched (untouched : context.Untouched root) : context.Upward root := by
  intro parent inside child member running
  have pending := untouched.state
    (Node.ids_subset_of_mem_preorder inside (Node.ids_child_subset member child.mem_ids_self))
  rw [pending] at running
  cases running

/-- All nodes above a running node run. -/
theorem Upward.above (upward : context.Upward root) {n m : Node} (inside : n ∈ root.preorder)
    (below : m ∈ n.preorder) (running : context.state m.id = .running) :
    context.state n.id = .running := by
  induction n using Node.induction with
  | step n ih =>
    rcases Node.mem_preorder.1 below with rfl | ⟨child, member, below⟩
    · exact running
    · have within := Node.mem_preorder_child inside member
      exact upward n inside child member (ih child member within below)

end Context

variable {root : Node} {manner : Manner} {ids : List String} {s s' : RunState}

/-- Whatever is done within a tree, whoever runs in it has running nodes above. -/
theorem Alters.upward (alters : Alters root ids s s') (distinct : root.ids.Nodup)
    (upward : s.context.Upward root) : s'.context.Upward root := by
  intro parent inside child member running
  cases alters with
  | quiet same =>
    rw [Context.state, same] at running ⊢
    exact upward parent inside child member running
  | halt _ phases =>
    rw [Context.state, phases] at running
    exact absurd running (s.context.state_halted_ne _ _)
  | @begin node _ _ _ above phases =>
    -- A parent that has just started runs, so it is one that ran before that matters.
    have kept (h : s.context.state parent.id = .running) :
        s'.context.state parent.id = .running := by
      rw [Context.state, phases]
      split
      · rfl
      · exact h
    by_cases own : node.id = child.id
    · rcases above with rfl | ⟨other, inside', member', runs⟩
      · have deep := Node.id_mem_idsAll_children inside member
        rw [← own] at deep
        exact absurd deep (Node.id_notMem_children distinct)
      · have same := Node.parent_unique distinct inside inside' member member' own.symm
        exact kept (same ▸ runs)
    · rw [Context.state, phases, if_neg own] at running
      exact kept (upward parent inside child member running)
  | @retry node since retries _ _ _ runs phases =>
    have states (id : String) : s'.context.state id = s.context.state id := by
      rw [Context.state, Context.state, phases]
      split
      · next own =>
        subst own
        rw [runs]
        rfl
      · rfl
    rw [states] at running ⊢
    exact upward parent inside child member running
  | @rearm node inside' _ phases =>
    rw [Context.state, phases] at running ⊢
    split at running
    · cases running
    · next outside =>
      rw [if_neg (mt (Node.child_id_mem_idsAll_children distinct inside inside' member) outside)]
      exact upward parent inside child member running
  | @close node _ _ _ inside' _ _ below phases =>
    rw [Context.state, phases] at running ⊢
    split at running
    · exact absurd running (Phase.state_finish_ne _ _ _ _)
    · rw [if_neg]
      · exact upward parent inside child member running
      · intro own
        have same := List.inj_on_of_nodup_map distinct inside' inside own
        exact below child (same ▸ member) running
  | @drop _ top inside' member' _ _ phases =>
    have within := Node.mem_preorder_child inside' member'
    rw [Context.state, phases] at running ⊢
    split at running
    · exact absurd running (s.context.state_halted_ne _ _)
    · next outside =>
      rw [if_neg (mt (Node.child_id_mem_ids distinct inside within member) outside)]
      exact upward parent inside child member running

/-- However far a run has come, all nodes above a running node run. -/
theorem Changes.upward (changes : Changes root manner ids s s') (distinct : root.ids.Nodup)
    (upward : s.context.Upward root) : s'.context.Upward root :=
  changes.invariant (fun s => s.context.Upward root)
    (fun _ _ change kept => change.alters.upward distinct kept) upward

end Stepwise
