import Stepwise.Proofs.Run.Schedule

/-!
# States along the tree

The states of nodes follow the tree at every time: no node runs below one that does not, the steps
of sequences and loops are run in turn, and of a condition at most one branch is run.
-/

namespace Stepwise

namespace Context

variable {context : Context} {node : Node}

/-- Of steps in turn those before one that has begun are completed. -/
theorem InTurn.completed {nodes : List Node} (h : context.InTurn nodes) {i j : Nat} (less : i < j)
    (bound : j < nodes.length) (touched : context.state nodes[j].id ≠ .pending) :
    context.state nodes[i].id = .completed :=
  List.pairwise_iff_getElem.1 h i j (Nat.lt_trans less bound) bound less touched

/-- Of the children of a condition at most one has begun. -/
theorem AtMostOne.countP_le {nodes : List Node} (h : context.AtMostOne nodes) :
    nodes.countP (fun node => context.state node.id ≠ .pending) ≤ 1 := by
  induction nodes with
  | nil => exact Nat.zero_le 1
  | cons node rest ih =>
    obtain ⟨apart, others⟩ := List.pairwise_cons.1 h
    rw [List.countP_cons]
    by_cases touched : context.state node.id = .pending
    · simpa [touched] using ih others
    · -- Then no other node has left its pending state.
      have none : rest.countP (fun node => context.state node.id ≠ .pending) = 0 := by
        refine List.countP_eq_zero.2 fun other member => ?_
        simpa using (apart other member).resolve_left touched
      rw [none]
      split <;> decide

end Context

namespace Run

variable {engine : Engine} {root : Node} {limit : Option Duration} {s : RunState} {stage : Stage}

/-- In a sound state the states of a tree are in order. -/
theorem Sound.ordered (h : Sound root s stage) : s.context.Ordered root := by
  cases h with
  | active fits _ _ _ => exact fits.ordered
  | ended settled _ => exact settled.ordered

/-- Above whoever runs all run. -/
theorem Sound.running_above (h : Sound root s stage) {m n : Node} (hn : n ∈ root.preorder)
    (hm : m ∈ n.preorder) (running : s.context.state m.id = .running) :
    s.context.state n.id = .running := by
  cases h with
  | active fits _ _ _ => exact fits.running_above hn hm running
  | ended settled _ =>
    have inside : m.id ∈ root.ids := Node.mem_ids.2 ⟨m, Node.mem_preorder_trans hn hm, rfl⟩
    exact absurd running (settled.idle m.id inside)

/-- In every state that a run reaches, the nodes above a running node run; if a child of a sequence
or a loop has left its pending state, the children before it have completed; and at most one child
of a condition has left its pending state. -/
theorem states_follow_tree (engine : Engine) (root : Node) (limit : Option Duration)
    (s₀ : RunState) (distinct : root.ids.Nodup) (nodes : s₀.context.nodes = [])
    {p : RunState × Stage} (h : Reaches engine root limit s₀ p) :
    (∀ n ∈ root.preorder, ∀ m ∈ n.preorder, p.1.context.state m.id = .running →
      p.1.context.state n.id = .running) ∧
    (∀ n ∈ root.preorder, (n.kind = .sequence ∨ ∃ spec, n.kind = .loop spec) →
      ∀ (i j : Nat) (less : i < j) (bound : j < n.children.length),
        p.1.context.state n.children[j].id ≠ .pending →
        p.1.context.state n.children[i].id = .completed) ∧
    (∀ n ∈ root.preorder, ∀ text, n.kind = .condition text →
      n.children.countP (fun child => p.1.context.state child.id ≠ .pending) ≤ 1) := by
  have sound := h.sound (s₀.context.untouched_of_nodes nodes root) distinct
  refine ⟨fun n hn m hm => sound.running_above hn hm, fun n hn kind i j less bound => ?_,
    fun n hn text kind => ?_⟩
  · have order := sound.ordered n hn
    have turn : p.1.context.InTurn n.children := by
      rcases kind with kind | ⟨spec, kind⟩
      · simpa only [Context.Orderly, kind] using order
      · simpa only [Context.Orderly, kind] using order
    exact turn.completed less bound
  · have order := sound.ordered n hn
    have one : p.1.context.AtMostOne n.children := by
      simpa only [Context.Orderly, kind] using order
    exact one.countP_le

/-- Halfway through two tasks the second runs: so does the sequence, and the first has completed. -/
theorem states_follow_tree_halfway : pair.ids.Nodup ∧ outset.context.nodes = [] ∧
    Reaches slow pair none outset halfway ∧ halfway.1.context.state "second" = .running ∧
    halfway.1.context.state "both" = .running ∧ halfway.1.context.state "first" = .completed := by
  have distinct : pair.ids.Nodup := by decide
  have second : halfway.1.context.state "second" = .running := rfl
  have follows := states_follow_tree slow pair none outset distinct rfl reaches_halfway
  refine ⟨distinct, rfl, reaches_halfway, second, ?_, ?_⟩
  · exact follows.1 pair pair.mem_preorder_self _
      (Node.mem_preorder_of_child (List.mem_cons_of_mem _ List.mem_cons_self)
        (Node.mem_preorder_self _)) second
  · refine follows.2.1 pair pair.mem_preorder_self (.inl rfl) 0 1 Nat.zero_lt_one (by decide) ?_
    exact fun pending => NodeState.noConfusion (second.symm.trans pending)

end Run

end Stepwise
