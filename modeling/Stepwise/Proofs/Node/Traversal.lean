import Stepwise.Proofs.Node.Tree

/-!
# Traversals and places

A traversal keeps the trees still to be visited on a stack. At every moment it has still to come
upon the trees on the stack, from the top down and each in preorder, so that a traversal of one tree
is the preorder of the tree.

A node of a tree is known by its place, the way down to it from the top. Equal nodes may stand at
several places. The preorder has one node for each place of the tree, in the order of the places, so
it tells how many nodes a tree has, and which one of an id comes first.
-/

namespace Stepwise.Node

/-! ## Traversals -/

namespace Traversal

theorem ahead_of_next?_none {t : Traversal} (step : t.next? = none) : t.ahead = [] := by
  obtain ⟨stack⟩ := t
  simp only [next?] at step
  split at step
  · next empty =>
    rw [Array.back?_eq_none_iff.1 empty]
    rfl
  · cases step

/-- A traversal comes upon all that is still to come. -/
theorem toList_eq_ahead (t : Traversal) : t.toList = t.ahead := by
  fun_induction toList t with
  | case1 t step => exact (ahead_of_next?_none step).symm
  | case2 t node rest step _ ih => rw [ih, ahead_of_next? step]

theorem ahead_ofTrees (trees : List Node) : (ofTrees trees).ahead = preorderAll trees := by
  rw [ahead, ofTrees, List.toList_toArray, List.reverse_reverse]

end Traversal

theorem walk_singleton (node : Node) : walk [node] = node.preorder := by
  rw [walk, Traversal.toList_eq_ahead, Traversal.ahead_ofTrees, preorderAll, preorderAll,
    List.append_nil]

theorem count_eq (node : Node) : node.count = node.preorder.length := by
  rw [Node.count, walk_singleton]

/-! ## Depth -/

theorem depthAll_le {nodes : List Node}
    (h : ∀ node ∈ nodes, node.depth ≤ node.preorder.length) :
    depthAll nodes ≤ (preorderAll nodes).length := by
  induction nodes with
  | nil => exact Nat.le_refl _
  | cons first rest ih =>
    have top := h first List.mem_cons_self
    have others := ih fun node member => h node (List.mem_cons_of_mem _ member)
    rw [depthAll, preorderAll, List.length_append]
    omega

/-- A tree has no more levels than nodes. -/
theorem depth_le (node : Node) : node.depth ≤ node.preorder.length := by
  induction node using Node.induction with
  | step node ih =>
    rw [depth_eq, preorder_eq, List.length_cons]
    exact Nat.succ_le_succ (depthAll_le ih)

/-! ## Places -/

/-- The node at a place of a tree. A place says level by level which child to go to. -/
def at? : Node → List Nat → Option Node
  | node, [] => some node
  | node, i :: place => node.children[i]?.bind (fun child => child.at? place)

mutual

/-- The top of a tree, then the places below its children in their order. -/
def places (node : Node) : List (List Nat) :=
  match node with
  | ⟨_, _, children, _, _⟩ => [] :: placesFrom 0 children

/-- The places below children, of which the first one has a number. -/
def placesFrom (i : Nat) : List Node → List (List Nat)
  | [] => []
  | node :: rest => (places node).map (i :: ·) ++ placesFrom (i + 1) rest

end

theorem places_eq (node : Node) : node.places = [] :: placesFrom 0 node.children := by
  cases node
  rfl

theorem mem_placesFrom {nodes : List Node} {i : Nat} {place : List Nat} :
    place ∈ placesFrom i nodes ↔
      ∃ j child below, nodes[j]? = some child ∧ below ∈ child.places ∧ place = (i + j) :: below := by
  induction nodes generalizing i with
  | nil => simp [placesFrom]
  | cons first rest ih =>
    rw [placesFrom, List.mem_append, List.mem_map, ih]
    constructor
    · rintro (⟨below, inside, rfl⟩ | ⟨j, child, below, found, inside, rfl⟩)
      · exact ⟨0, first, below, rfl, inside, rfl⟩
      · exact ⟨j + 1, child, below, found, inside, by rw [Nat.add_right_comm, Nat.add_assoc]⟩
    · rintro ⟨_ | j, child, below, found, inside, rfl⟩
      · obtain rfl := Option.some.inj found
        exact .inl ⟨below, inside, rfl⟩
      · exact .inr ⟨j, child, below, found, inside, by rw [Nat.add_right_comm, Nat.add_assoc]⟩

/-- The places listed are those at which there is a node. -/
theorem mem_places {node : Node} {place : List Nat} :
    place ∈ node.places ↔ ∃ n, node.at? place = some n := by
  induction node using Node.induction generalizing place with
  | step node ih =>
    rw [places_eq]
    cases place with
    | nil => simp [at?]
    | cons i below =>
      simp only [List.mem_cons, reduceCtorEq, false_or, mem_placesFrom, at?,
        Option.bind_eq_some_iff, Nat.zero_add, List.cons.injEq]
      constructor
      · rintro ⟨_, child, _, found, inside, rfl, rfl⟩
        obtain ⟨n, reached⟩ := (ih child (List.mem_of_getElem? found)).1 inside
        exact ⟨n, child, found, reached⟩
      · rintro ⟨n, child, found, reached⟩
        exact ⟨i, child, below, found, (ih child (List.mem_of_getElem? found)).2 ⟨n, reached⟩,
          rfl, rfl⟩

theorem pairwise_placesFrom {nodes : List Node}
    (h : ∀ node ∈ nodes, node.places.Pairwise (· < ·)) (i : Nat) :
    (placesFrom i nodes).Pairwise (· < ·) := by
  induction nodes generalizing i with
  | nil => exact .nil
  | cons first rest ih =>
    rw [placesFrom, List.pairwise_append]
    refine ⟨?_, ih (fun node member => h node (List.mem_cons_of_mem _ member)) (i + 1), ?_⟩
    · refine (h first List.mem_cons_self).map (i :: ·) ?_
      intro a b less
      exact List.cons_lt_cons_iff.2 (.inr ⟨rfl, less⟩)
    · -- What is below a later child has a greater first number.
      intro a before b after
      obtain ⟨_, -, rfl⟩ := List.mem_map.1 before
      obtain ⟨j, _, _, -, -, rfl⟩ := mem_placesFrom.1 after
      exact List.cons_lt_cons_iff.2 (.inl (by omega))

theorem pairwise_places (node : Node) : node.places.Pairwise (· < ·) := by
  induction node using Node.induction with
  | step node ih =>
    rw [places_eq, List.pairwise_cons]
    refine ⟨?_, pairwise_placesFrom ih 0⟩
    intro place below
    obtain ⟨_, _, _, -, -, rfl⟩ := mem_placesFrom.1 below
    exact List.nil_lt_cons _ _

theorem map_at?_placesFrom {node : Node} {nodes : List Node} {i : Nat}
    (h : ∀ child ∈ nodes, child.places.map child.at? = child.preorder.map some)
    (rest : node.children.drop i = nodes) :
    (placesFrom i nodes).map node.at? = (preorderAll nodes).map some := by
  induction nodes generalizing i with
  | nil => rfl
  | cons first others ih =>
    have found : node.children[i]? = some first := by
      rw [← List.head?_drop, rest, List.head?_cons]
    have inside : node.at? ∘ (i :: ·) = first.at? := by
      funext place
      simp [at?, found]
    have later := ih (fun child member => h child (List.mem_cons_of_mem _ member))
      (i := i + 1) (by rw [← List.tail_drop, rest, List.tail_cons])
    rw [placesFrom, preorderAll, List.map_append, List.map_append, List.map_map, inside,
      h first List.mem_cons_self, later]

/-- The preorder has the nodes at the places of a tree. -/
theorem map_at?_places (node : Node) : node.places.map node.at? = node.preorder.map some := by
  induction node using Node.induction with
  | step node ih =>
    rw [places_eq, preorder_eq, List.map_cons, List.map_cons, map_at?_placesFrom ih rfl]
    rfl

theorem length_places (node : Node) : node.places.length = node.preorder.length := by
  have lengths := congrArg List.length node.map_at?_places
  rwa [List.length_map, List.length_map] at lengths

theorem mem_preorder_iff_at? {root node : Node} :
    node ∈ root.preorder ↔ ∃ place, root.at? place = some node := by
  have inside : some node ∈ root.preorder.map some ↔ node ∈ root.preorder := by simp
  rw [← inside, ← map_at?_places, List.mem_map]
  constructor
  · rintro ⟨place, -, found⟩
    exact ⟨place, found⟩
  · rintro ⟨place, found⟩
    exact ⟨place, mem_places.2 ⟨node, found⟩, found⟩

/-- All places of a tree, each one once: a place comes before the places below it, and these come
before the places below later children. -/
structure PlacesInOrder (root : Node) (places : List (List Nat)) : Prop where
  complete : ∀ place, place ∈ places ↔ ∃ node, root.at? place = some node
  ordered : places.Pairwise (· < ·)

theorem placesInOrder_places (root : Node) : root.PlacesInOrder root.places :=
  ⟨fun _ => mem_places, root.pairwise_places⟩

/-- Two children, of which the first one has a child. -/
example : (make "top" .sequence [make "first" .sequence [make "under" .sequence []],
    make "second" .sequence []]).places = [[], [0], [0, 0], [1]] := rfl

/-! ## The first node of an id -/

theorem find?_eq_some_iff {root node : Node} {id : String} :
    root.find? id = some node ↔ ∃ before after, root.preorder = before ++ node :: after ∧
      node.id = id ∧ ∀ n ∈ before, n.id ≠ id := by
  rw [find?, walk_singleton, List.find?_eq_some_iff_append]
  simp only [beq_iff_eq, Bool.not_eq_true', beq_eq_false_iff_ne]
  constructor
  · rintro ⟨own, before, after, split, others⟩
    exact ⟨before, after, split, own, others⟩
  · rintro ⟨before, after, split, own, others⟩
    exact ⟨own, before, after, split, others⟩

theorem find?_eq_none_iff {root : Node} {id : String} :
    root.find? id = none ↔ ∀ place node, root.at? place = some node → node.id ≠ id := by
  rw [find?, walk_singleton, List.find?_eq_none]
  simp only [beq_iff_eq]
  constructor
  · intro missing place node found
    exact missing node (mem_preorder_iff_at?.2 ⟨place, found⟩)
  · intro missing node member
    obtain ⟨place, found⟩ := mem_preorder_iff_at?.1 member
    exact missing place node found

/-- A traversal of a tree comes upon its nodes in preorder: the node, then the preorders of its
children, which is one node for each place of the tree in the order of the places. So it counts the
nodes, which are no fewer than the levels, and finds the first one of an id if there is any. -/
theorem walks_in_preorder (root : Node) :
    (Traversal.ofTrees [root]).toList = root.preorder ∧
    root.preorder = root :: root.children.flatMap preorder ∧
    (∃ places, root.PlacesInOrder places ∧ places.map root.at? = root.preorder.map some ∧
      root.count = places.length) ∧
    root.depth ≤ root.count ∧
    ∀ id,
      (∀ node, root.find? id = some node ↔ ∃ before after,
        root.preorder = before ++ node :: after ∧ node.id = id ∧ ∀ n ∈ before, n.id ≠ id) ∧
      (root.find? id = none ↔ ∀ place node, root.at? place = some node → node.id ≠ id) := by
  refine ⟨root.walk_singleton, ?listing,
    ⟨root.places, root.placesInOrder_places, root.map_at?_places, ?count⟩, ?depth, ?find⟩
  case listing => rw [preorder_eq, preorderAll_eq_flatMap]
  case count => rw [count_eq, length_places]
  case depth =>
    rw [count_eq]
    exact root.depth_le
  case find =>
    intro id
    exact ⟨fun _ => find?_eq_some_iff, find?_eq_none_iff⟩

end Stepwise.Node
