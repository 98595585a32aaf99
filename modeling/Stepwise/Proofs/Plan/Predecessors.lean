import Stepwise.Plan.Predecessors
import Stepwise.Proofs.Plan.Order
import Stepwise.Proofs.Table

/-!
# What nodes wait for

The entries of the predecessor graph, one for each node of a tree in preorder. What an entry lists
is there by the place of the node, which is the sibling before it or its parent (`Follows`), or
because the parameters of the node refer to it.
-/

namespace Stepwise

namespace Node

/-- What a node of a tree comes after by its place: the sibling before it, where the children run
one after another, or its parent. -/
inductive Follows (root m : Node) : String → Prop
  | sibling {n before : Node} {front back : List Node} (inside : n ∈ root.preorder)
      (turn : n.kind.inTurn = true) (split : n.children = front ++ before :: m :: back) :
      Follows root m before.id
  | parent {n : Node} (inside : n ∈ root.preorder) (member : m ∈ n.children) : Follows root m n.id

theorem Follows.mono {root n m : Node} {id : String} (h : n.Follows m id)
    (inside : n ∈ root.preorder) : root.Follows m id := by
  cases h with
  | sibling within turn split => exact .sibling (mem_preorder_trans inside within) turn split
  | parent within member => exact .parent (mem_preorder_trans inside within) member

end Node

namespace Plan

variable {known : List String} {before : Option String} {root node : Node}

theorem predecessorsInTurn_cons (known : List String) (before : String) (node : Node)
    (rest : List Node) : predecessorsInTurn known before (node :: rest) =
      predecessorList known (some before) node ++ predecessorsInTurn known node.id rest := rfl

theorem predecessorsBelow_eq (known : List String) (parent : String) (nodes : List Node) :
    predecessorsBelow known parent nodes =
      nodes.flatMap (predecessorList known (some parent)) := by
  induction nodes with
  | nil => rfl
  | cons node rest ih => rw [predecessorsBelow, ih, List.flatMap_cons]

theorem predecessorList_eq (known : List String) (before : Option String) (node : Node) :
    predecessorList known before node =
      (node.id, predecessorsOf known before node.id node.kind) ::
        if node.kind.inTurn then predecessorsInTurn known node.id node.children
        else predecessorsBelow known node.id node.children := by
  obtain ⟨id, kind, children, branch, tags⟩ := node
  cases kind <;> rfl

/-- There is an entry for each node of a tree, in preorder. -/
theorem keys_predecessorList (known : List String) (before : Option String) (node : Node) :
    (predecessorList known before node).map Prod.fst = node.ids := by
  induction node using Node.induction generalizing before with
  | step node ih =>
    have turns (nodes : List Node) (sub : nodes ⊆ node.children) (before : String) :
        (predecessorsInTurn known before nodes).map Prod.fst = Node.idsAll nodes := by
      induction nodes generalizing before with
      | nil => rfl
      | cons first rest more =>
        rw [predecessorsInTurn_cons, List.map_append, ih first (sub List.mem_cons_self),
          more fun other member => sub (List.mem_cons_of_mem _ member), Node.idsAll_cons]
    rw [predecessorList_eq, List.map_cons, Node.ids_eq]
    split
    · rw [turns node.children (List.Subset.refl _)]
    · rw [predecessorsBelow_eq, List.map_flatMap, Node.idsAll]
      exact congrArg _ (List.flatMap_congr fun child member => ih child member _)

/-- An entry is that of a node, with what it waits for by its place and by its references. -/
theorem mem_predecessorList {entry : String × List String}
    (h : entry ∈ predecessorList known before node) :
    entry = (node.id, predecessorsOf known before node.id node.kind) ∨
      ∃ m ∈ node.preorder, ∃ id, node.Follows m id ∧
        entry = (m.id, predecessorsOf known (some id) m.id m.kind) := by
  induction node using Node.induction generalizing before with
  | step node ih =>
    have below {child : Node} {id : String} (member : child ∈ node.children)
        (follows : node.Follows child id) (inside : entry ∈ predecessorList known (some id) child) :
        ∃ m ∈ node.preorder, ∃ id, node.Follows m id ∧
          entry = (m.id, predecessorsOf known (some id) m.id m.kind) := by
      have part := Node.mem_preorder_of_child member child.mem_preorder_self
      rcases ih child member inside with own | ⟨m, within, id', lower, same⟩
      · exact ⟨child, part, id, follows, own⟩
      · exact ⟨m, Node.mem_preorder_trans part within, id', lower.mono part, same⟩
    rw [predecessorList_eq] at h
    rcases List.mem_cons.1 h with own | h
    · exact .inl own
    · right
      split at h
      · next turn =>
        -- Each child but the first follows the one before it.
        have turns (front rest : List Node) (last : Node)
            (split : node.children = front ++ last :: rest)
            (inside : entry ∈ predecessorsInTurn known last.id rest) :
            ∃ m ∈ node.preorder, ∃ id, node.Follows m id ∧
              entry = (m.id, predecessorsOf known (some id) m.id m.kind) := by
          induction rest generalizing front last with
          | nil => cases inside
          | cons first rest more =>
            rw [predecessorsInTurn_cons] at inside
            rcases List.mem_append.1 inside with inside | inside
            · refine below ?_ (.sibling node.mem_preorder_self turn split) inside
              rw [split]
              exact List.mem_append_right _ (List.mem_cons_of_mem _ List.mem_cons_self)
            · refine more (front ++ [last]) first ?_ inside
              rw [split, List.append_assoc, List.singleton_append]
        cases children : node.children with
        | nil =>
          rw [children] at h
          cases h
        | cons first rest =>
          have member : first ∈ node.children := children ▸ List.mem_cons_self
          rw [children, predecessorsInTurn_cons] at h
          rcases List.mem_append.1 h with h | h
          · exact below member (.parent node.mem_preorder_self member) h
          · exact turns [] rest first children h
      · rw [predecessorsBelow_eq] at h
        obtain ⟨child, member, inside⟩ := List.mem_flatMap.1 h
        exact below member (.parent node.mem_preorder_self member) inside

/-- What stands before a node is listed, and so is whatever else it refers to. -/
theorem mem_predecessorsOf {id p : String} {kind : Kind} :
    p ∈ predecessorsOf known before id kind ↔
      before = some p ∨ p ∈ kind.references ∧ p ≠ id ∧ p ∈ known := by
  simp only [predecessorsOf, List.mem_append, Option.mem_toList, List.mem_filter, decide_eq_true_eq,
    Bool.and_eq_true, Bool.not_eq_true', ne_eq, decide_eq_false_iff_not, List.contains_eq_mem]
  grind

/-- The entries of the graph of a tree with pairwise distinct ids. -/
theorem find?_predecessors (distinct : root.ids.Nodup) {id : String} {ids : List String} :
    (predecessors root).find? id = some ids ↔ (id, ids) ∈ predecessorList root.ids none root := by
  refine Table.find?_ofList ?_
  rw [keys_predecessorList]
  exact distinct

end Plan

end Stepwise
