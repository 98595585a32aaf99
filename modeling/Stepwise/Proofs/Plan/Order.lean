import Stepwise.Plan.Stages
import Stepwise.Proofs.Node.Tree

/-!
# The order of stages

The stages of a tree keep the order of its steps. The stages of a tree that is part of another
stand among those of the whole, all moved by the same number of places (`exists_shift`), so it is
enough to look at the lowest node above two others: a sequence or a loop puts the stages of its
children one after another, and a condition puts its own stage before those of its branches.
-/

namespace Stepwise

/-- Nodes of this kind do or decide something; the others only say when. -/
def Kind.acts : Kind → Bool
  | .task _ | .wait _ | .condition _ => true
  | .sequence | .parallel _ | .loop _ => false

/-- Nodes of this kind run their children one after another. -/
def Kind.inTurn : Kind → Bool
  | .sequence | .loop _ => true
  | .task _ | .wait _ | .condition _ | .parallel _ => false

/-- Nodes of this kind do something by themselves. -/
def Kind.works : Kind → Bool
  | .task _ | .wait _ => true
  | .sequence | .loop _ | .condition _ | .parallel _ => false

namespace Node

/-- The tasks and the waits of a tree have no children. -/
def Leafy (root : Node) : Prop :=
  ∀ n ∈ root.preorder, n.kind.works = true → n.children = []

/-- One node of a tree comes before another by the order of the steps. Either the lowest node above
both runs its children in turn and the one is below an earlier child than the other, or the one
is a condition and the other is below it. -/
inductive Precedes (root : Node) (u v : Node) : Prop
  | inTurn {n : Node} (inside : n ∈ root.preorder) (turn : n.kind.inTurn = true) {j i : Nat}
      (less : i < j) (bound : j < n.children.length) (left : u ∈ n.children[i].preorder)
      (right : v ∈ n.children[j].preorder)
  | below {text : String} (inside : u ∈ root.preorder) (condition : u.kind = .condition text)
      {child : Node} (branch : child ∈ u.children) (under : v ∈ child.preorder)

theorem Leafy.mono {root n : Node} (h : root.Leafy) (inside : n ∈ root.preorder) : n.Leafy :=
  fun m member => h m (mem_preorder_trans inside member)

/-- A node with a child is no task and no wait. -/
theorem Leafy.works_eq_false {root child : Node} (h : root.Leafy) (member : child ∈ root.children) :
    root.kind.works = false := by
  by_contra works
  have none := h root root.mem_preorder_self (eq_true_of_ne_false works)
  rw [none] at member
  exact List.not_mem_nil member

theorem Precedes.mem_left {root u v : Node} (h : root.Precedes u v) : u ∈ root.preorder := by
  cases h with
  | inTurn inside turn less bound left right =>
    have child := List.getElem_mem (Nat.lt_trans less bound)
    exact mem_preorder_trans inside (mem_preorder_of_child child left)
  | below inside => exact inside

theorem Precedes.mem_right {root u v : Node} (h : root.Precedes u v) : v ∈ root.preorder := by
  cases h with
  | inTurn inside turn less bound left right =>
    exact mem_preorder_trans inside (mem_preorder_of_child (List.getElem_mem bound) right)
  | below inside condition branch under =>
    exact mem_preorder_trans inside (mem_preorder_of_child branch under)

end Node

namespace Plan

/-- Some stage of a list holds an id. -/
def At (stages : List Stage) (i : Nat) (id : String) : Prop :=
  ∃ stage, stages[i]? = some stage ∧ id ∈ stage

/-- The one stage of a list that holds an id. -/
def IsStageOf (stages : List Stage) (id : String) (i : Nat) : Prop := ∀ k, At stages k id ↔ k = i

variable {left right : List Stage} {node child n root u v : Node} {nodes : List Node} {id : String}
  {i : Nat}

/-! ## Lists of stages -/

@[simp] theorem at_nil : ¬At [] i id := by simp [At]

theorem at_cons {stage : Stage} :
    At (stage :: right) i id ↔ i = 0 ∧ id ∈ stage ∨ ∃ k, i = 1 + k ∧ At right k id := by
  cases i with
  | zero => simp [At]; omega
  | succ i => simp [At, Nat.add_comm 1]

theorem At.lt_length (h : At left i id) : i < left.length := by
  obtain ⟨stage, found, -⟩ := h
  exact (List.getElem?_eq_some_iff.1 found).1

/-- Of two lists one after another the second is moved by the length of the first. -/
theorem at_append :
    At (left ++ right) i id ↔ At left i id ∨ ∃ k, i = left.length + k ∧ At right k id := by
  by_cases inside : i < left.length
  · have beyond : ¬∃ k, i = left.length + k ∧ At right k id := by
      rintro ⟨k, rfl, -⟩
      omega
    rw [or_iff_left beyond, At, At, List.getElem?_append_left inside]
  · obtain ⟨k, rfl⟩ := Nat.exists_eq_add_of_le (Nat.le_of_not_lt inside)
    have outside : ¬At left (left.length + k) id := fun h => inside h.lt_length
    rw [or_iff_right outside]
    simp [At, List.getElem?_append_right]

theorem at_beside : At (beside left right) i id ↔ At left i id ∨ At right i id := by
  fun_induction beside left right generalizing i with
  | case1 right => simp
  | case2 left => simp
  | case3 a left b right ih =>
    simp only [at_cons, ih, List.mem_append]
    grind

/-! ## Trees -/

theorem stagesInTurn_append (nodes rest : List Node) :
    stagesInTurn (nodes ++ rest) = stagesInTurn nodes ++ stagesInTurn rest := by
  induction nodes with
  | nil => rfl
  | cons node nodes ih => simp only [List.cons_append, stagesInTurn, ih, List.append_assoc]

theorem at_stagesSideBySide :
    At (stagesSideBySide nodes) i id ↔ ∃ node ∈ nodes, At (stages node) i id := by
  induction nodes with
  | nil => simp [stagesSideBySide]
  | cons node rest ih => simp [stagesSideBySide, at_beside, ih]

theorem stages_of_inTurn (turn : node.kind.inTurn = true) :
    stages node = stagesInTurn node.children := by
  obtain ⟨id, kind, children, branch, tags⟩ := node
  cases kind with
  | sequence | loop spec => rfl
  | task spec | wait spec | condition text | parallel spec => cases turn

theorem stages_of_condition {text : String} (condition : node.kind = .condition text) :
    stages node = [node.id] :: stagesSideBySide node.children := by
  obtain ⟨id, kind, children, branch, tags⟩ := node
  cases condition
  rfl

/-- The four ways in which the stages of a node come about. -/
inductive Staged (node : Node) : Prop
  | works (works : node.kind.works = true) (acts : node.kind.acts = true)
      (eq : stages node = [[node.id]])
  | inTurn (quiet : node.kind.acts = false) (eq : stages node = stagesInTurn node.children)
  | sideBySide (quiet : node.kind.acts = false) (eq : stages node = stagesSideBySide node.children)
  | decides (acts : node.kind.acts = true)
      (eq : stages node = [node.id] :: stagesSideBySide node.children)

theorem staged (node : Node) : Staged node := by
  obtain ⟨id, kind, children, branch, tags⟩ := node
  cases kind with
  | task spec | wait spec => exact .works rfl rfl rfl
  | sequence | loop spec => exact .inTurn rfl rfl
  | parallel spec => exact .sideBySide rfl rfl
  | condition text => exact .decides rfl rfl

/-- Whatever stands in the stages of a tree is a node of it that does or decides something. -/
theorem exists_of_at (h : At (stages node) i id) :
    ∃ m ∈ node.preorder, m.kind.acts = true ∧ m.id = id := by
  induction node using Node.induction generalizing i with
  | step node ih =>
    have below {child : Node} (member : child ∈ node.children) {k : Nat}
        (inside : At (stages child) k id) : ∃ m ∈ node.preorder, m.kind.acts = true ∧ m.id = id := by
      obtain ⟨m, hm, rest⟩ := ih child member inside
      exact ⟨m, Node.mem_preorder_of_child member hm, rest⟩
    have turns (nodes : List Node) (sub : nodes ⊆ node.children) {k : Nat}
        (inside : At (stagesInTurn nodes) k id) :
        ∃ m ∈ node.preorder, m.kind.acts = true ∧ m.id = id := by
      induction nodes generalizing k with
      | nil => exact absurd inside at_nil
      | cons first rest more =>
        rcases at_append.1 inside with inside | ⟨k, -, inside⟩
        · exact below (sub List.mem_cons_self) inside
        · exact more (fun other member => sub (List.mem_cons_of_mem _ member)) inside
    have own (acts : node.kind.acts = true) (same : id = node.id) :
        ∃ m ∈ node.preorder, m.kind.acts = true ∧ m.id = id :=
      ⟨node, node.mem_preorder_self, acts, same.symm⟩
    cases staged node with
    | works _ acts eq =>
      rw [eq, at_cons] at h
      rcases h with ⟨-, same⟩ | ⟨k, -, none⟩
      · exact own acts (List.mem_singleton.1 same)
      · exact absurd none at_nil
    | inTurn _ eq =>
      rw [eq] at h
      exact turns node.children (List.Subset.refl _) h
    | sideBySide _ eq =>
      rw [eq, at_stagesSideBySide] at h
      obtain ⟨child, member, inside⟩ := h
      exact below member inside
    | decides acts eq =>
      rw [eq, at_cons] at h
      rcases h with ⟨-, same⟩ | ⟨k, -, inside⟩
      · exact own acts (List.mem_singleton.1 same)
      · obtain ⟨child, member, inside⟩ := at_stagesSideBySide.1 inside
        exact below member inside

theorem mem_ids_of_at (h : At (stages node) i id) : id ∈ node.ids := by
  obtain ⟨m, inside, -, rfl⟩ := exists_of_at h
  exact Node.mem_ids.2 ⟨m, inside, rfl⟩

theorem mem_idsAll_of_at (h : At (stagesInTurn nodes) i id) : id ∈ Node.idsAll nodes := by
  induction nodes generalizing i with
  | nil => exact absurd h at_nil
  | cons node rest ih =>
    rw [Node.idsAll_cons]
    rcases at_append.1 h with inside | ⟨k, -, inside⟩
    · exact List.mem_append_left _ (mem_ids_of_at inside)
    · exact List.mem_append_right _ (ih inside)

/-! ## Parts of a tree -/

/-- The stages of a tree stand among those of another, moved by some number of places. -/
def Shifted (inner outer : List Stage) (ids : List String) (shift : Nat) : Prop :=
  ∀ id ∈ ids, ∀ i, At outer i id ↔ ∃ k, i = shift + k ∧ At inner k id

theorem Shifted.refl (stages : List Stage) (ids : List String) : Shifted stages stages ids 0 := by
  intro id _ i
  simp

theorem Shifted.trans {inner middle outer : List Stage} {ids more : List String} {a b : Nat}
    (first : Shifted inner middle ids a) (second : Shifted middle outer more b) (sub : ids ⊆ more) :
    Shifted inner outer ids (b + a) := by
  intro id member i
  rw [second id (sub member) i]
  constructor
  · rintro ⟨k, rfl, found⟩
    obtain ⟨l, rfl, innermost⟩ := (first id member k).1 found
    exact ⟨l, (Nat.add_assoc b a l).symm, innermost⟩
  · rintro ⟨l, rfl, innermost⟩
    exact ⟨a + l, Nat.add_assoc b a l, (first id member _).2 ⟨l, rfl, innermost⟩⟩

/-- Of trees in turn, each comes after the stages of those before it. -/
theorem shifted_inTurn {before after : List Node}
    (distinct : (Node.idsAll (before ++ child :: after)).Nodup) :
    Shifted (stages child) (stagesInTurn (before ++ child :: after)) child.ids
      (stagesInTurn before).length := by
  intro id member i
  rw [Node.idsAll_append, Node.idsAll_cons] at distinct
  have first : ¬At (stagesInTurn before) i id := fun inside =>
    List.disjoint_of_nodup_append distinct (mem_idsAll_of_at inside) (List.mem_append_left _ member)
  have last (k : Nat) : ¬At (stagesInTurn after) k id := fun inside =>
    List.disjoint_of_nodup_append (List.nodup_append.1 distinct).2.1 member (mem_idsAll_of_at inside)
  rw [stagesInTurn_append, at_append, or_iff_right first]
  simp only [stagesInTurn, at_append, last, and_false, exists_false, or_false]

/-- Trees side by side are not moved at all. -/
theorem shifted_sideBySide (distinct : (Node.idsAll nodes).Nodup) (member : child ∈ nodes) :
    Shifted (stages child) (stagesSideBySide nodes) child.ids 0 := by
  intro id own i
  rw [at_stagesSideBySide]
  simp only [Nat.zero_add, exists_eq_left']
  constructor
  · rintro ⟨other, inside, found⟩
    by_cases same : other = child
    · exact same ▸ found
    · obtain ⟨before, after, rfl⟩ := List.append_of_mem member
      have elsewhere : other ∈ before ++ after := by
        rcases List.mem_append.1 inside with first | last
        · exact List.mem_append_left _ first
        · exact List.mem_append_right _ ((List.mem_cons.1 last).resolve_left same)
      exact absurd own (Node.id_notMem_of_split distinct elsewhere (mem_ids_of_at found))
  · exact fun found => ⟨child, member, found⟩

theorem shifted_cons {inner outer : List Stage} {ids : List String} {shift : Nat} {own : String}
    (h : Shifted inner outer ids shift) (apart : own ∉ ids) :
    Shifted inner ([own] :: outer) ids (1 + shift) := by
  have below : Shifted outer ([own] :: outer) ids 1 := by
    intro id member i
    have other : id ∉ [own] := fun same => apart (List.mem_singleton.1 same ▸ member)
    simp [at_cons, other]
  exact h.trans below (List.Subset.refl _)

/-- The stages of a child stand among those of its parent. -/
theorem exists_shift_child (distinct : node.ids.Nodup) (leafy : node.Leafy)
    (member : child ∈ node.children) :
    ∃ shift, Shifted (stages child) (stages node) child.ids shift := by
  have below := Node.nodup_children distinct
  cases staged node with
  | works works _ _ =>
    rw [leafy.works_eq_false member] at works
    cases works
  | inTurn _ eq =>
    obtain ⟨before, after, split⟩ := List.append_of_mem member
    rw [split] at below
    rw [eq, split]
    exact ⟨_, shifted_inTurn below⟩
  | sideBySide _ eq =>
    rw [eq]
    exact ⟨0, shifted_sideBySide below member⟩
  | decides _ eq =>
    have apart : node.id ∉ child.ids := fun own =>
      Node.id_notMem_children distinct (Node.idsAll_subset member own)
    rw [eq]
    exact ⟨1, shifted_cons (shifted_sideBySide below member) apart⟩

/-- The stages of a part of a tree stand among those of the whole. -/
theorem exists_shift (distinct : root.ids.Nodup) (leafy : root.Leafy) (inside : n ∈ root.preorder) :
    ∃ shift, Shifted (stages n) (stages root) n.ids shift := by
  induction root using Node.induction with
  | step root ih =>
    rcases Node.mem_preorder.1 inside with rfl | ⟨child, member, under⟩
    · exact ⟨0, .refl _ _⟩
    · have part := Node.mem_preorder_of_child member child.mem_preorder_self
      obtain ⟨a, inner⟩ := ih child member (Node.nodup_ids_of_mem_preorder distinct part)
        (leafy.mono part) under
      obtain ⟨b, outer⟩ := exists_shift_child distinct leafy member
      exact ⟨b + a, inner.trans outer (Node.ids_subset_of_mem_preorder under)⟩

/-- A node that does or decides something has the first stage of its own tree. -/
theorem isStageOf_self (distinct : node.ids.Nodup) (acts : node.kind.acts = true) :
    IsStageOf (stages node) node.id 0 := by
  intro k
  cases staged node with
  | works _ _ eq =>
    rw [eq]
    simp [at_cons]
  | decides _ eq =>
    have later (l : Nat) : ¬At (stagesSideBySide node.children) l node.id := by
      rw [at_stagesSideBySide]
      rintro ⟨child, member, found⟩
      exact Node.id_notMem_children distinct (Node.idsAll_subset member (mem_ids_of_at found))
    rw [eq, at_cons]
    simp [later]
  | inTurn quiet _ | sideBySide quiet _ =>
    rw [quiet] at acts
    cases acts

/-- In a part of a tree a node has one stage, and in the whole it has the one that is moved. -/
theorem Shifted.isStageOf {inner outer : List Stage} {ids : List String} {shift : Nat}
    (h : Shifted inner outer ids shift) (member : id ∈ ids) (own : IsStageOf inner id i) :
    IsStageOf outer id (shift + i) := by
  intro k
  rw [h id member k]
  constructor
  · rintro ⟨l, rfl, found⟩
    rw [(own l).1 found]
  · rintro rfl
    exact ⟨i, rfl, (own i).2 rfl⟩

/-- Every node of a tree that does or decides something has one stage. -/
theorem exists_isStageOf (distinct : root.ids.Nodup) (leafy : root.Leafy)
    (inside : n ∈ root.preorder) (acts : n.kind.acts = true) :
    ∃ i, IsStageOf (stages root) n.id i := by
  obtain ⟨shift, shifted⟩ := exists_shift distinct leafy inside
  have own := isStageOf_self (Node.nodup_ids_of_mem_preorder distinct inside) acts
  exact ⟨_, shifted.isStageOf n.mem_ids_self own⟩

/-! ## The order -/

/-- Of two nodes below different children of a node that runs them in turn, the one below the
earlier child has the earlier stage. -/
theorem lt_of_inTurn (distinct : n.ids.Nodup) (turn : n.kind.inTurn = true) {j i : Nat}
    (less : i < j) (bound : j < n.children.length) (left : u ∈ n.children[i].preorder)
    (right : v ∈ n.children[j].preorder) {k l : Nat} (hu : At (stages n) k u.id)
    (hv : At (stages n) l v.id) : k < l := by
  have below := Node.nodup_children distinct
  rw [← List.take_append_drop j n.children, Node.idsAll_append] at below
  rw [stages_of_inTurn turn, ← List.take_append_drop j n.children, stagesInTurn_append] at hu hv
  have early : u.id ∈ Node.idsAll (n.children.take j) := by
    refine Node.mem_idsAll.2 ⟨n.children[i], ?_, Node.mem_ids.2 ⟨u, left, rfl⟩⟩
    exact List.mem_take_iff_getElem.2 ⟨i, by omega, rfl⟩
  have late : v.id ∈ Node.idsAll (n.children.drop j) := by
    refine Node.mem_idsAll.2 ⟨n.children[j], ?_, Node.mem_ids.2 ⟨v, right, rfl⟩⟩
    exact List.mem_drop_iff_getElem.2 ⟨0, by omega, by simp⟩
  have apart := List.disjoint_of_nodup_append below
  rcases at_append.1 hu with first | ⟨_, -, last⟩
  · rcases at_append.1 hv with first' | ⟨m, rfl, -⟩
    · exact absurd late (apart (mem_idsAll_of_at first'))
    · exact Nat.lt_add_right m first.lt_length
  · exact absurd (mem_idsAll_of_at last) (apart early)

/-- The stages of what is below a condition come after its own. -/
theorem pos_of_below (distinct : n.ids.Nodup) {text : String} (condition : n.kind = .condition text)
    (branch : child ∈ n.children) (under : v ∈ child.preorder) {l : Nat}
    (hv : At (stages n) l v.id) : 0 < l := by
  have other : v.id ≠ n.id := fun same =>
    Node.id_notMem_children distinct
      (same ▸ Node.idsAll_subset branch (Node.mem_ids.2 ⟨v, under, rfl⟩))
  rw [stages_of_condition condition, at_cons] at hv
  rcases hv with ⟨-, own⟩ | ⟨k, rfl, -⟩
  · exact absurd (List.mem_singleton.1 own) other
  · omega

/-- What comes before by the order of the steps has the earlier stage: the order is that in the
stages of the lowest node above both. -/
theorem lt_of_precedes (distinct : root.ids.Nodup) (leafy : root.Leafy)
    (before : root.Precedes u v) {j : Nat} (hu : At (stages root) i u.id)
    (hv : At (stages root) j v.id) : i < j := by
  have lower {n : Node} (inside : n ∈ root.preorder) (insideU : u ∈ n.preorder)
      (insideV : v ∈ n.preorder)
      (less : ∀ k l, At (stages n) k u.id → At (stages n) l v.id → k < l) :
      i < j := by
    obtain ⟨shift, shifted⟩ := exists_shift distinct leafy inside
    obtain ⟨k, rfl, innerU⟩ := (shifted u.id (Node.mem_ids.2 ⟨u, insideU, rfl⟩) i).1 hu
    obtain ⟨l, rfl, innerV⟩ := (shifted v.id (Node.mem_ids.2 ⟨v, insideV, rfl⟩) j).1 hv
    exact Nat.add_lt_add_left (less k l innerU innerV) shift
  cases before with
  | inTurn inside turn less bound left right =>
    refine lower inside ?_ ?_ fun k l => lt_of_inTurn
      (Node.nodup_ids_of_mem_preorder distinct inside) turn less bound left right
    · exact Node.mem_preorder_of_child (List.getElem_mem (Nat.lt_trans less bound)) left
    · exact Node.mem_preorder_of_child (List.getElem_mem bound) right
  | below inside condition branch under =>
    have own := Node.nodup_ids_of_mem_preorder distinct inside
    refine lower inside u.mem_preorder_self (Node.mem_preorder_of_child branch under) ?_
    intro k l innerU innerV
    rw [(isStageOf_self own (by rw [condition]; rfl) k).1 innerU]
    exact pos_of_below own condition branch under innerV

/-- In a tree with pairwise distinct ids whose tasks and waits have no children, of two nodes that
do or decide something each has one stage, and if one comes before the other by the order of the
steps, its stage is the earlier one. -/
theorem stages_in_order (root : Node) (distinct : root.ids.Nodup) (leafy : root.Leafy) {u v : Node}
    (hu : u.kind.acts = true) (hv : v.kind.acts = true) (before : root.Precedes u v) :
    ∃ i j, IsStageOf (stages root) u.id i ∧ IsStageOf (stages root) v.id j ∧ i < j := by
  obtain ⟨i, first⟩ := exists_isStageOf distinct leafy before.mem_left hu
  obtain ⟨j, second⟩ := exists_isStageOf distinct leafy before.mem_right hv
  exact ⟨i, j, first, second,
    lt_of_precedes distinct leafy before ((first i).2 rfl) ((second j).2 rfl)⟩

/-! ## A tree with blocks in blocks -/

/-- A task without parameters. -/
def chore (id : String) : Node := .make id (.task ⟨"work", [], [], 0, none, none⟩) []

/-- A wait that a condition decides about. -/
def pause : Node := (Node.make "pause" (.wait ⟨"ready", none, none⟩) []).withBranch .onTrue

/-- Two tasks in turn beside a third one, and then a condition. -/
def errands : Node :=
  .make "all" .sequence
    [.make "both" (.parallel .standard)
      [.make "pair" .sequence [chore "fetch", chore "wrap"], chore "call"],
      .make "check" (.condition "ready") [pause]]

/-- The last task of a block comes before the wait of the condition after it. -/
theorem stages_in_order_errands : errands.ids.Nodup ∧ errands.Leafy ∧
    (chore "wrap").kind.acts = true ∧ pause.kind.acts = true ∧
    errands.Precedes (chore "wrap") pause ∧
    ∃ i j, IsStageOf (stages errands) "wrap" i ∧ IsStageOf (stages errands) "pause" j ∧ i < j := by
  have distinct : errands.ids.Nodup := by decide
  have leafy : errands.Leafy := by
    intro n inside works
    simp only [errands, chore, pause, Node.make, Node.withBranch, Node.preorder, Node.preorderAll,
      List.mem_cons, List.mem_append, List.not_mem_nil, or_false] at inside
    rcases inside with rfl | (rfl | (rfl | rfl | rfl) | rfl) | rfl | rfl <;> first | rfl | cases works
  have before : errands.Precedes (chore "wrap") pause := by
    refine .inTurn errands.mem_preorder_self rfl (i := 0) (j := 1) Nat.zero_lt_one ?_ ?_ ?_
    · decide
    · exact List.mem_of_getElem? (i := 3) rfl
    · exact List.mem_of_getElem? (i := 1) rfl
  exact ⟨distinct, leafy, rfl, rfl, before, stages_in_order errands distinct leafy rfl rfl before⟩

end Plan

end Stepwise
