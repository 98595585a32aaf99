import Mathlib.Logic.Function.Iterate
import Stepwise.Proofs.Run.Standing
import Stepwise.Proofs.Template.Dependence

/-!
# What patient trees come to

A tree of tasks, sequences and parallel blocks is patient if no task gives up waiting, every block
waits for all its children whatever becomes of them, and what a task calls is written in the tree.
If the outcome of a call goes by the call alone, what such a tree comes to can be told without
running it: `verdict` is the outcome of a node, and `leaves` says in which standing its tree leaves
the node of an id. Neither looks at how many children of a block may run at a time.
-/

namespace Stepwise

/-- The call of a task whose parameters stand for themselves. -/
def TaskSpec.call (spec : TaskSpec) : Call := ⟨spec.task, spec.tools, spec.parameters⟩

/-- The outcome of a call goes by the call alone. -/
def Executor.Answers (executor : Executor) (answer : Call → Except String Json) : Prop :=
  ∀ earlier entry, (executor earlier entry).outcome = answer entry.call

namespace Node

/-- A task without a time limit and placeholders, or a block that waits for all its children. -/
def Bides (node : Node) : Prop :=
  match node.kind with
  | .task spec => spec.timeout = none ∧ ∀ body, ¬Template.Holds (.obj spec.parameters) body
  | .sequence => True
  | .parallel spec => spec.waitForAll = true ∧ spec.failFast = false
  | _ => False

/-- A tree of such nodes. -/
def Patient (root : Node) : Prop := ∀ node ∈ root.preorder, node.Bides

section

variable (answer : Call → Except String Json)

/-- What a task comes to whose attempts are all answered alike. -/
def taskVerdict (node : Node) (spec : TaskSpec) : Except Fault Json :=
  match answer spec.call with
  | .ok value => .ok value
  | .error reason => .error (Run.exhausted node spec (.taskFailed spec.task reason))

/-- The attempts of a node that fail with another to follow. -/
def failures (node : Node) : Nat :=
  match node.kind with
  | .task spec =>
    match answer spec.call with
    | .ok _ => 0
    | .error _ => Run.attempts spec - 1
  | _ => 0

mutual

/-- The outcome of a node. -/
def verdict (node : Node) : Except Fault Json :=
  match node with
  | ⟨id, kind, children, branch, tags⟩ =>
    match kind with
    | .task spec => taskVerdict answer ⟨id, kind, children, branch, tags⟩ spec
    | .sequence => (verdicts children).map .arr
    | .parallel _ => .ok (.arr (slots children))
    | _ => .ok .null

/-- The outcome of nodes one after another. -/
def verdicts : List Node → Except Fault (List Json)
  | [] => .ok []
  | node :: rest =>
    match verdict node with
    | .ok value => (verdicts rest).map (value :: ·)
    | .error fault => .error fault

/-- The parts of nodes in the value of a parallel block. -/
def slots : List Node → List Json
  | [] => []
  | node :: rest => Standing.kept node.id (verdict node) :: slots rest

end

/-- The standing of a node itself once it has come to its outcome. -/
def closed (node : Node) (standing : Standing) : Standing :=
  ((Standing.again^[node.failures answer]) standing.begin).close node.id (node.verdict answer)

mutual

/-- The standing in which a tree leaves the node of an id, from the one before. -/
def leaves (node : Node) (id : String) (standing : Standing) : Standing :=
  match node with
  | ⟨own, kind, children, branch, tags⟩ =>
    if own = id then closed answer ⟨own, kind, children, branch, tags⟩ standing
    else
      match kind with
      | .sequence => leavesInTurn children id standing
      | .parallel _ => leavesAll children id standing
      | _ => standing

/-- Likewise for trees one after another, up to the first that fails. -/
def leavesInTurn : List Node → String → Standing → Standing
  | [], _, standing => standing
  | node :: rest, id, standing =>
    match verdict answer node with
    | .ok _ => leavesInTurn rest id (leaves node id standing)
    | .error _ => leaves node id standing

/-- Likewise for all of some trees. -/
def leavesAll : List Node → String → Standing → Standing
  | [], _, standing => standing
  | node :: rest, id, standing => leavesAll rest id (leaves node id standing)

end

end

variable {answer : Call → Except String Json} {node : Node} {id : String} {standing : Standing}

/-- The children of a patient node are patient. -/
theorem Patient.child (h : node.Patient) {child : Node} (member : child ∈ node.children) :
    child.Patient := fun n inside => h n (mem_preorder_of_child member inside)

/-! ## Kinds of nodes -/

theorem verdict_of_task {spec : TaskSpec} (kind : node.kind = .task spec) :
    node.verdict answer = taskVerdict answer node spec := by
  cases node
  cases kind
  rw [verdict]

theorem verdict_of_sequence (kind : node.kind = .sequence) :
    node.verdict answer = (verdicts answer node.children).map .arr := by
  cases node
  cases kind
  rw [verdict]

theorem verdict_of_parallel {spec : ParallelSpec} (kind : node.kind = .parallel spec) :
    node.verdict answer = .ok (.arr (slots answer node.children)) := by
  cases node
  cases kind
  rw [verdict]

/-- What a node leaves of a standing, at its top and below. -/
theorem leaves_eq (node : Node) (id : String) (standing : Standing) :
    node.leaves answer id standing =
      if node.id = id then node.closed answer standing
      else
        match node.kind with
        | .sequence => leavesInTurn answer node.children id standing
        | .parallel _ => leavesAll answer node.children id standing
        | _ => standing := by
  cases node
  unfold leaves
  rfl

theorem leaves_self : node.leaves answer node.id standing = node.closed answer standing := by
  rw [leaves_eq, if_pos rfl]

theorem leaves_of_task {spec : TaskSpec} (kind : node.kind = .task spec) (other : node.id ≠ id) :
    node.leaves answer id standing = standing := by
  rw [leaves_eq, if_neg other, kind]

theorem leaves_of_sequence (kind : node.kind = .sequence) (other : node.id ≠ id) :
    node.leaves answer id standing = leavesInTurn answer node.children id standing := by
  rw [leaves_eq, if_neg other, kind]

theorem leaves_of_parallel {spec : ParallelSpec} (kind : node.kind = .parallel spec)
    (other : node.id ≠ id) :
    node.leaves answer id standing = leavesAll answer node.children id standing := by
  rw [leaves_eq, if_neg other, kind]

/-- The slots of a block are the values that its children are kept with. -/
theorem slots_eq_map (nodes : List Node) :
    slots answer nodes = nodes.map fun node => Standing.kept node.id (node.verdict answer) := by
  induction nodes with
  | nil => rfl
  | cons node rest ih => rw [slots, ih, List.map_cons]

/-! ## Trees that a node does not belong to -/

/-- Where each node leaves a standing as it is, so do all in turn. -/
theorem leavesInTurn_of_each {nodes : List Node}
    (each : ∀ node ∈ nodes, ∀ standing, node.leaves answer id standing = standing)
    (standing : Standing) : leavesInTurn answer nodes id standing = standing := by
  induction nodes with
  | nil => rfl
  | cons node rest ih =>
    rw [List.forall_mem_cons] at each
    rw [leavesInTurn, each.1]
    split
    · exact ih each.2
    · rfl

theorem leavesAll_of_each {nodes : List Node}
    (each : ∀ node ∈ nodes, ∀ standing, node.leaves answer id standing = standing)
    (standing : Standing) : leavesAll answer nodes id standing = standing := by
  induction nodes with
  | nil => rfl
  | cons node rest ih =>
    rw [List.forall_mem_cons] at each
    rw [leavesAll, each.1]
    exact ih each.2

/-- A tree leaves nodes of other ids as they are. -/
theorem leaves_of_notMem (other : id ∉ node.ids) (standing : Standing) :
    node.leaves answer id standing = standing := by
  induction node using Node.induction generalizing standing with
  | step node ih =>
    rw [ids_eq, List.mem_cons, not_or] at other
    obtain ⟨own, below⟩ := other
    have each : ∀ child ∈ node.children, ∀ standing,
        child.leaves answer id standing = standing := by
      intro child member standing
      exact ih child member (fun inside => below (idsAll_subset member inside)) standing
    rw [leaves_eq, if_neg (Ne.symm own)]
    split
    · exact leavesInTurn_of_each each standing
    · exact leavesAll_of_each each standing
    · rfl

/-- Steps in turn leave alone what is in none of their trees. -/
theorem leavesInTurn_of_notMem {nodes : List Node} (other : id ∉ idsAll nodes)
    (standing : Standing) : leavesInTurn answer nodes id standing = standing := by
  apply leavesInTurn_of_each
  intro node member standing
  exact leaves_of_notMem (fun inside => other (idsAll_subset member inside)) standing

theorem leavesAll_of_notMem {nodes : List Node} (other : id ∉ idsAll nodes)
    (standing : Standing) : leavesAll answer nodes id standing = standing := by
  apply leavesAll_of_each
  intro node member standing
  exact leaves_of_notMem (fun inside => other (idsAll_subset member inside)) standing

/-! ## Nodes one after another -/

/-- Steps whose first ones end well are worth what those and the others are worth. -/
theorem verdicts_append {before : List Node} {done : List Json}
    (past : verdicts answer before = .ok done) (rest : List Node) :
    verdicts answer (before ++ rest) = (verdicts answer rest).map (done ++ ·) := by
  induction before generalizing done with
  | nil =>
    cases past
    cases h : verdicts answer rest <;> simp [h, Except.map]
  | cons node before ih =>
    rw [verdicts] at past
    rw [List.cons_append, verdicts]
    cases first : node.verdict answer with
    | error fault => rw [first] at past; cases past
    | ok value =>
      simp only [first] at past ⊢
      cases others : verdicts answer before with
      | error fault => rw [others] at past; cases past
      | ok values =>
        rw [others] at past
        cases past
        rw [ih others]
        cases verdicts answer rest <;> rfl

/-- When the first of some trees have all come to a value, the others go on from where they leave
the nodes. -/
theorem leavesInTurn_append {before : List Node} {done : List Json}
    (past : verdicts answer before = .ok done) (rest : List Node) (standing : Standing) :
    leavesInTurn answer (before ++ rest) id standing =
      leavesInTurn answer rest id (leavesInTurn answer before id standing) := by
  induction before generalizing done standing with
  | nil => rfl
  | cons node before ih =>
    rw [verdicts] at past
    rw [List.cons_append, leavesInTurn, leavesInTurn]
    cases first : node.verdict answer with
    | error fault => rw [first] at past; cases past
    | ok value =>
      simp only [first] at past ⊢
      cases others : verdicts answer before with
      | error fault => rw [others] at past; cases past
      | ok values => exact ih others _

theorem leavesInTurn_singleton (node : Node) (standing : Standing) :
    leavesInTurn answer [node] id standing = node.leaves answer id standing := by
  rw [leavesInTurn]
  split <;> rfl

/-- Behind a tree that fails nothing happens. -/
theorem leavesInTurn_failed {fault : Fault} (failed : node.verdict answer = .error fault)
    (rest : List Node) (standing : Standing) :
    leavesInTurn answer (node :: rest) id standing = node.leaves answer id standing := by
  rw [leavesInTurn, failed]

/-- Of trees with distinct ids only the one that a node belongs to matters to it. -/
theorem leavesAll_of_mem {nodes : List Node} (distinct : (idsAll nodes).Nodup)
    (member : node ∈ nodes) (inside : id ∈ node.ids) (standing : Standing) :
    leavesAll answer nodes id standing = node.leaves answer id standing := by
  induction nodes generalizing standing with
  | nil => cases member
  | cons first rest ih =>
    have apart := disjoint_of_cons distinct
    rw [leavesAll]
    rcases List.mem_cons.1 member with rfl | member
    · exact leavesAll_of_notMem (apart inside) _
    · have other : id ∉ first.ids := fun h => apart h (idsAll_subset member inside)
      rw [leaves_of_notMem other, ih (nodup_of_cons distinct).2 member]

/-! ## Outcomes -/

/-- No node comes to a cancellation. -/
theorem plain_verdict (node : Node) : Run.Plain (node.verdict answer) := by
  induction node using Node.induction with
  | step node ih =>
    have inTurn : ∀ nodes : List Node, (∀ n ∈ nodes, Run.Plain (n.verdict answer)) →
        ∀ fault, verdicts answer nodes = .error fault → fault.isCancelled = false := by
      intro nodes each fault failed
      induction nodes with
      | nil => cases failed
      | cons node rest ih =>
        rw [List.forall_mem_cons] at each
        rw [verdicts] at failed
        cases first : node.verdict answer with
        | error other =>
          rw [first] at failed
          cases failed
          exact each.1 fault first
        | ok value =>
          cases others : verdicts answer rest with
          | ok values => simp [first, others, Except.map] at failed
          | error other =>
            simp only [first, others, Except.map, Except.error.injEq] at failed
            exact ih each.2 (failed ▸ others)
    intro fault failed
    obtain ⟨id, kind, children, branch, tags⟩ := node
    cases kind with
    | task spec =>
      rw [verdict, taskVerdict] at failed
      cases given : answer spec.call with
      | ok value => simp [given] at failed
      | error reason =>
        simp only [given, Except.error.injEq] at failed
        rw [← failed]
        exact Run.isCancelled_exhausted _ spec rfl
    | sequence =>
      rw [verdict] at failed
      cases each : verdicts answer children with
      | ok values => simp [each, Except.map] at failed
      | error other =>
        simp only [each, Except.map, Except.error.injEq] at failed
        exact inTurn children ih fault (failed ▸ each)
    | parallel | condition | loop | wait => simp [verdict] at failed

/-! ## Limits on lanes -/

mutual

/-- The tree without limits on how many children of a block may run at a time. -/
def unlaned (node : Node) : Node :=
  match node with
  | ⟨id, kind, children, branch, tags⟩ =>
    let kind := match kind with
      | .parallel spec => .parallel { spec with maxConcurrency := none }
      | kind => kind
    ⟨id, kind, unlanedAll children, branch, tags⟩

/-- Some trees without bounds on their lanes. -/
def unlanedAll : List Node → List Node
  | [] => []
  | node :: rest => unlaned node :: unlanedAll rest

end

theorem unlanedAll_eq_map (nodes : List Node) : unlanedAll nodes = nodes.map unlaned := by
  induction nodes with
  | nil => rfl
  | cons node rest ih => rw [unlanedAll, ih, List.map_cons]

@[simp] theorem id_unlaned (node : Node) : node.unlaned.id = node.id := by
  cases node
  rfl

theorem children_unlaned (node : Node) : node.unlaned.children = node.children.map unlaned := by
  cases node
  exact unlanedAll_eq_map _

theorem preorder_unlaned (node : Node) : node.unlaned.preorder = node.preorder.map unlaned := by
  induction node using Node.induction with
  | step node ih =>
    rw [preorder_eq, preorder_eq, children_unlaned, preorderAll_eq_flatMap, preorderAll_eq_flatMap,
      List.map_cons, List.map_flatMap, List.flatMap_map]
    exact congrArg _ (List.flatMap_congr ih)

theorem ids_unlaned (node : Node) : node.unlaned.ids = node.ids := by
  rw [ids, ids, preorder_unlaned, List.map_map]
  exact List.map_congr_left fun node _ => node.id_unlaned

theorem bides_unlaned (node : Node) : node.unlaned.Bides ↔ node.Bides := by
  obtain ⟨id, kind, children, branch, tags⟩ := node
  cases kind <;> exact Iff.rfl

theorem patient_unlaned (node : Node) : node.unlaned.Patient ↔ node.Patient := by
  rw [Patient, Patient, preorder_unlaned]
  simp [bides_unlaned]

/-- Bounds on lanes make no difference to what a tree is worth. -/
theorem verdict_unlaned (node : Node) : node.unlaned.verdict answer = node.verdict answer := by
  induction node using Node.induction with
  | step node ih =>
    have inTurn : ∀ nodes : List Node,
        (∀ n ∈ nodes, n.unlaned.verdict answer = n.verdict answer) →
        verdicts answer (unlanedAll nodes) = verdicts answer nodes := by
      intro nodes each
      induction nodes with
      | nil => rfl
      | cons node rest ih =>
        rw [List.forall_mem_cons] at each
        rw [unlanedAll, verdicts, verdicts, each.1, ih each.2]
    have parts : slots answer (unlanedAll node.children) = slots answer node.children := by
      rw [slots_eq_map, slots_eq_map, unlanedAll_eq_map, List.map_map]
      apply List.map_congr_left
      intro child member
      rw [Function.comp, id_unlaned, ih child member]
    obtain ⟨id, kind, children, branch, tags⟩ := node
    cases kind with
    | task spec => rfl
    | sequence =>
      show (verdicts answer (unlanedAll children)).map Json.arr =
        (verdicts answer children).map Json.arr
      rw [inTurn children ih]
    | parallel spec =>
      show Except.ok (Json.arr (slots answer (unlanedAll children))) =
        .ok (.arr (slots answer children))
      rw [parts]
    | condition | loop | wait => rfl

/-- How many children of a block may run at a time is nothing to what becomes of a node. -/
theorem leaves_unlaned (node : Node) (standing : Standing) :
    node.unlaned.leaves answer id standing = node.leaves answer id standing := by
  induction node using Node.induction generalizing standing with
  | step node ih =>
    have inTurn : ∀ (nodes : List Node) (standing : Standing),
        (∀ n ∈ nodes, ∀ x, n.unlaned.leaves answer id x = n.leaves answer id x) →
        leavesInTurn answer (unlanedAll nodes) id standing =
          leavesInTurn answer nodes id standing := by
      intro nodes
      induction nodes with
      | nil => exact fun _ _ => rfl
      | cons node rest ih =>
        intro standing each
        rw [List.forall_mem_cons] at each
        rw [unlanedAll, leavesInTurn, leavesInTurn, verdict_unlaned, each.1, ih _ each.2]
    have all : ∀ (nodes : List Node) (standing : Standing),
        (∀ n ∈ nodes, ∀ x, n.unlaned.leaves answer id x = n.leaves answer id x) →
        leavesAll answer (unlanedAll nodes) id standing = leavesAll answer nodes id standing := by
      intro nodes
      induction nodes with
      | nil => exact fun _ _ => rfl
      | cons node rest ih =>
        intro standing each
        rw [List.forall_mem_cons] at each
        rw [unlanedAll, leavesAll, leavesAll, each.1, ih _ each.2]
    have own : node.unlaned.closed answer standing = node.closed answer standing := by
      have failures : node.unlaned.failures answer = node.failures answer := by
        obtain ⟨id, kind, children, branch, tags⟩ := node
        cases kind <;> rfl
      rw [closed, closed, failures, verdict_unlaned, id_unlaned]
    rw [leaves_eq, leaves_eq, own, id_unlaned]
    obtain ⟨name, kind, children, branch, tags⟩ := node
    cases kind with
    | sequence => exact congrArg _ (inTurn children standing ih)
    | parallel spec => exact congrArg _ (all children standing ih)
    | task | condition | loop | wait => rfl

end Node

end Stepwise
