import Mathlib.Data.List.Nodup
import Stepwise.Node.Basic

/-!
# Trees and their ids

Induction over trees, what `preorder` and `ids` list, and how the ids of a tree are shared out
among its node and the trees of its children. In a tree with pairwise distinct ids no two
children have an id in common, and none has that of the node.
-/

namespace Stepwise.Node

/-- Induction over trees: a property of a node follows from that of its children. -/
theorem induction {P : Node → Prop} (step : ∀ node, (∀ child ∈ node.children, P child) → P node)
    (node : Node) : P node := by
  refine @Node.rec P (fun nodes => ∀ node ∈ nodes, P node) ?mk ?nil ?cons node
  case mk =>
    intro id kind children branch tags ih
    exact step _ ih
  case nil => simp
  case cons =>
    intro first rest hfirst hrest node member
    rcases List.mem_cons.1 member with rfl | member
    · exact hfirst
    · exact hrest node member

/-! ## Preorder -/

theorem preorderAll_eq_flatMap (nodes : List Node) :
    preorderAll nodes = nodes.flatMap preorder := by
  induction nodes with
  | nil => rfl
  | cons node rest ih => rw [preorderAll, ih, List.flatMap_cons]

theorem mem_preorder {n node : Node} :
    n ∈ node.preorder ↔ n = node ∨ ∃ child ∈ node.children, n ∈ child.preorder := by
  rw [preorder_eq, preorderAll_eq_flatMap, List.mem_cons, List.mem_flatMap]

theorem mem_preorder_self (node : Node) : node ∈ node.preorder := mem_preorder.2 (.inl rfl)

theorem mem_preorder_of_child {n child node : Node} (hchild : child ∈ node.children)
    (hn : n ∈ child.preorder) : n ∈ node.preorder := mem_preorder.2 (.inr ⟨child, hchild, hn⟩)

/-- What is below a node of a tree is below the top of the tree. -/
theorem mem_preorder_trans {m n node : Node} (hn : n ∈ node.preorder) (hm : m ∈ n.preorder) :
    m ∈ node.preorder := by
  induction node using Node.induction with
  | step node ih =>
    rcases mem_preorder.1 hn with rfl | ⟨child, hchild, hn⟩
    · exact hm
    · exact mem_preorder_of_child hchild (ih child hchild hn)

/-- The children of a node of a tree are nodes of the tree. -/
theorem mem_preorder_child {child node root : Node} (inside : node ∈ root.preorder)
    (member : child ∈ node.children) : child ∈ root.preorder :=
  mem_preorder_trans inside (mem_preorder_of_child member child.mem_preorder_self)

/-! ## Ids -/

/-- The ids of several trees. -/
def idsAll (nodes : List Node) : List String := nodes.flatMap ids

@[simp] theorem idsAll_nil : idsAll [] = [] := rfl

@[simp] theorem idsAll_cons (node : Node) (rest : List Node) :
    idsAll (node :: rest) = node.ids ++ idsAll rest := rfl

@[simp] theorem idsAll_append (front back : List Node) :
    idsAll (front ++ back) = idsAll front ++ idsAll back := List.flatMap_append

theorem mem_idsAll {id : String} {nodes : List Node} :
    id ∈ idsAll nodes ↔ ∃ node ∈ nodes, id ∈ node.ids := List.mem_flatMap

theorem ids_eq (node : Node) : node.ids = node.id :: idsAll node.children := by
  rw [ids, preorder_eq, List.map_cons, preorderAll_eq_flatMap, List.map_flatMap]
  rfl

theorem mem_ids {id : String} {node : Node} : id ∈ node.ids ↔ ∃ n ∈ node.preorder, n.id = id :=
  List.mem_map

theorem mem_ids_self (node : Node) : node.id ∈ node.ids :=
  mem_ids.2 ⟨node, mem_preorder_self node, rfl⟩

theorem idsAll_subset {nodes : List Node} {node : Node} (h : node ∈ nodes) :
    node.ids ⊆ idsAll nodes := fun _ hid => mem_idsAll.2 ⟨node, h, hid⟩

theorem idsAll_children_subset (node : Node) : idsAll node.children ⊆ node.ids := by
  rw [ids_eq]
  exact List.subset_cons_self _ _

theorem ids_child_subset {node child : Node} (h : child ∈ node.children) : child.ids ⊆ node.ids :=
  List.Subset.trans (idsAll_subset h) node.idsAll_children_subset

theorem ids_subset_of_mem_preorder {n node : Node} (h : n ∈ node.preorder) : n.ids ⊆ node.ids := by
  intro id hid
  obtain ⟨m, hm, rfl⟩ := mem_ids.1 hid
  exact mem_ids.2 ⟨m, mem_preorder_trans h hm, rfl⟩

/-- Whatever is a child in a tree is below the top. -/
theorem id_mem_idsAll_children {n child node : Node} (hn : n ∈ node.preorder)
    (hchild : child ∈ n.children) : child.id ∈ idsAll node.children := by
  rcases mem_preorder.1 hn with rfl | ⟨top, htop, hn⟩
  · exact idsAll_subset hchild child.mem_ids_self
  · exact idsAll_subset htop (ids_subset_of_mem_preorder hn
      (ids_child_subset hchild child.mem_ids_self))

theorem id_notMem_children {node : Node} (h : node.ids.Nodup) : node.id ∉ idsAll node.children := by
  rw [ids_eq] at h
  exact (List.nodup_cons.1 h).1

theorem nodup_children {node : Node} (h : node.ids.Nodup) : (idsAll node.children).Nodup := by
  rw [ids_eq] at h
  exact (List.nodup_cons.1 h).2

theorem nodup_ids_of_mem {nodes : List Node} {node : Node} (h : (idsAll nodes).Nodup)
    (member : node ∈ nodes) : node.ids.Nodup := (List.nodup_flatMap.1 h).1 node member

theorem nodup_of_cons {rest : List Node} {node : Node} (h : (idsAll (node :: rest)).Nodup) :
    node.ids.Nodup ∧ (idsAll rest).Nodup :=
  ⟨(List.nodup_append.1 h).1, (List.nodup_append.1 h).2.1⟩

/-- The first of several trees shares no id with the others. -/
theorem disjoint_of_cons {rest : List Node} {node : Node} (h : (idsAll (node :: rest)).Nodup) :
    node.ids.Disjoint (idsAll rest) := List.disjoint_of_nodup_append h

theorem disjoint_of_mem {nodes : List Node} {node : Node} {ids : List String}
    (h : (idsAll nodes).Disjoint ids) (member : node ∈ nodes) : node.ids.Disjoint ids :=
  fun _ hid => h (idsAll_subset member hid)

/-- A tree inside one with pairwise distinct ids has pairwise distinct ids. -/
theorem nodup_ids_of_mem_preorder {n node : Node} (h : node.ids.Nodup) (hn : n ∈ node.preorder) :
    n.ids.Nodup := by
  induction node using Node.induction with
  | step node ih =>
    rcases mem_preorder.1 hn with rfl | ⟨child, hchild, hn⟩
    · exact h
    · exact ih child hchild (nodup_ids_of_mem (nodup_children h) hchild) hn

/-- The children of a node have pairwise distinct ids themselves. -/
theorem nodup_child_ids {node : Node} (h : node.ids.Nodup) : (node.children.map Node.id).Nodup := by
  have own (nodes : List Node) : (nodes.map Node.id).Sublist (idsAll nodes) := by
    induction nodes with
    | nil => exact List.nil_sublist _
    | cons first rest ih =>
      rw [List.map_cons, idsAll_cons, ids_eq, List.cons_append]
      exact (ih.trans (List.sublist_append_right _ _)).cons_cons _
  exact (nodup_children h).sublist (own node.children)

/-- Trees that stand before and after one of several trees share no id with it. -/
theorem id_notMem_of_split {before after : List Node} {child other : Node} {id : String}
    (h : (idsAll (before ++ child :: after)).Nodup) (hother : other ∈ before ++ after)
    (hid : id ∈ other.ids) : id ∉ child.ids := by
  have pairwise := (List.nodup_flatMap.1 h).2
  rw [List.pairwise_append] at pairwise
  obtain ⟨-, hafter, hbefore⟩ := pairwise
  intro hchild
  rcases List.mem_append.1 hother with hother | hother
  · exact hbefore other hother child List.mem_cons_self hid hchild
  · exact (List.pairwise_cons.1 hafter).1 other hother hchild hid

/-- Of several trees that share no ids, an id is in one alone. -/
theorem eq_of_mem_ids {nodes : List Node} {a b : Node} {id : String} (h : (idsAll nodes).Nodup)
    (ha : a ∈ nodes) (hb : b ∈ nodes) (inA : id ∈ a.ids) (inB : id ∈ b.ids) : a = b := by
  by_contra differ
  obtain ⟨before, after, rfl⟩ := List.append_of_mem hb
  have beside : a ∈ before ++ after := by
    simp only [List.mem_append, List.mem_cons] at ha ⊢
    tauto
  exact id_notMem_of_split h beside inA inB

/-- In a tree with pairwise distinct ids the node of an id in a part of the tree is in that part. -/
theorem mem_preorder_of_id_mem {n m node : Node} (h : node.ids.Nodup) (hn : n ∈ node.preorder)
    (hm : m ∈ node.preorder) (hid : n.id ∈ m.ids) : n ∈ m.preorder := by
  obtain ⟨other, inside, same⟩ := mem_ids.1 hid
  rw [← List.inj_on_of_nodup_map h (mem_preorder_trans hm inside) hn same]
  exact inside

/-- In a tree with pairwise distinct ids a node has one parent. -/
theorem parent_unique {n m child other node : Node} (h : node.ids.Nodup) (hn : n ∈ node.preorder)
    (hm : m ∈ node.preorder) (hchild : child ∈ n.children) (hother : other ∈ m.children)
    (same : child.id = other.id) : n = m := by
  induction node using Node.induction with
  | step node ih =>
    have below := nodup_children h
    -- What is below a child of the top has its parent there.
    have apart {child other top m : Node} (hchild : child ∈ node.children)
        (htop : top ∈ node.children) (hm : m ∈ top.preorder) (hother : other ∈ m.children) :
        child.id ≠ other.id := by
      intro same
      have deep := id_mem_idsAll_children hm hother
      rw [← same] at deep
      have equal := eq_of_mem_ids below hchild htop child.mem_ids_self
        (top.idsAll_children_subset deep)
      subst equal
      exact id_notMem_children (nodup_ids_of_mem below hchild) deep
    rcases mem_preorder.1 hn with rfl | ⟨a, ha, inA⟩
    · rcases mem_preorder.1 hm with rfl | ⟨b, hb, inB⟩
      · rfl
      · exact absurd same (apart hchild hb inB hother)
    · rcases mem_preorder.1 hm with rfl | ⟨b, hb, inB⟩
      · exact absurd same.symm (apart hother ha inA hchild)
      · have idA := a.idsAll_children_subset (id_mem_idsAll_children inA hchild)
        have idB := b.idsAll_children_subset (id_mem_idsAll_children inB hother)
        rw [← same] at idB
        obtain rfl := eq_of_mem_ids below ha hb idA idB
        exact ih a ha (nodup_ids_of_mem below ha) inA inB

end Stepwise.Node
