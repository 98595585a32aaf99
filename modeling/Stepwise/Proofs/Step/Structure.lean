import Stepwise.Proofs.Plan.Cover
import Stepwise.Proofs.Step.Shape
import Stepwise.Proofs.Validation

/-!
# Trees without structural issues

Some issues of a check are about the structure of a tree alone: ids that occur twice, children
where there may be none, and conditions whose children do not stand on branches as they should.
Messages tell them from all others by how they begin, and a tree has none of them if and only if it
is `Regular` (`plain_validate`). Every tree that is read from steps is (`regular_of_parse`), so
whatever it is checked against, its report has no such issue.
-/

namespace Stepwise

namespace Checker

/-- The messages of structural issues. -/
inductive Structural : String → Prop
  | duplicateId (id : String) : Structural ("duplicate node id '" ++ id ++ "'")
  | duplicateChild (id : String) :
      Structural ("duplicate child id '" ++ id ++ "' in parallel block")
  | childOfTask : Structural "task nodes cannot have children"
  | childOfWait : Structural "wait nodes cannot have children"
  | thenBranches (n : Nat) :
      Structural ("condition needs exactly one then branch, found " ++ toString n)
  | elseBranches (n : Nat) :
      Structural ("condition allows at most one else branch, found " ++ toString n)
  | untagged (n : Nat) :
      Structural ("condition has " ++ toString n ++ " child(ren) without a branch tag")

/-- The structure of a node: nothing is below tasks and waits, and the children of a condition are
one for true, perhaps one for false, and no other. -/
structure RegularAt (node : Node) : Prop where
  leaf : node.kind.works = true → node.children = []
  branches : node.kind.nodeType = .condition →
    node.children.countP (fun child => child.branch = some .onTrue) = 1 ∧
      node.children.countP (fun child => child.branch = some .onFalse) ≤ 1 ∧
      ∀ child ∈ node.children, child.branch ≠ none

/-- The structure of a tree: no id occurs twice, and every node is regular. -/
structure Regular (root : Node) : Prop where
  distinct : root.ids.Nodup
  nodes : ∀ node ∈ root.preorder, RegularAt node

/-! ## How messages begin -/

/-- A message begins with a text. -/
def Opens (opening message : String) : Prop := opening.toList <+: message.toList

theorem opens_self (message : String) : Opens message message := List.prefix_refl _

theorem Opens.append {opening message : String} (h : Opens opening message) (rest : String) :
    Opens opening (message ++ rest) := by
  rw [Opens, String.toList_append]
  exact h.trans (List.prefix_append _ _)

/-- How the messages of structural issues begin. -/
def openings : List String := ["duplicate ", "task nodes ", "wait nodes ", "condition "]

/-- A text is told from the ways in which structural issues begin. -/
def Apart (opening : String) : Prop :=
  ∀ other ∈ openings, ¬opening.toList <+: other.toList ∧ ¬other.toList <+: opening.toList

instance (opening : String) : Decidable (Apart opening) :=
  inferInstanceAs (Decidable (∀ other ∈ openings, _))

theorem Structural.exists_opens {message : String} (h : Structural message) :
    ∃ opening ∈ openings, Opens opening message := by
  have begins (opening : String) {start : String} (listed : opening ∈ openings)
      (front : opening.toList <+: start.toList) (rest : String) :
      ∃ opening ∈ openings, Opens opening (start ++ rest) :=
    ⟨opening, listed, Opens.append front rest⟩
  cases h with
  | duplicateId id =>
    rw [String.append_assoc]
    exact begins "duplicate " (by decide) (by decide) _
  | duplicateChild id =>
    rw [String.append_assoc]
    exact begins "duplicate " (by decide) (by decide) _
  | childOfTask => exact ⟨"task nodes ", by decide, by unfold Opens; decide⟩
  | childOfWait => exact ⟨"wait nodes ", by decide, by unfold Opens; decide⟩
  | thenBranches n => exact begins "condition " (by decide) (by decide) _
  | elseBranches n => exact begins "condition " (by decide) (by decide) _
  | untagged n =>
    rw [String.append_assoc]
    exact begins "condition " (by decide) (by decide) _

/-- A message that begins otherwise is not that of a structural issue. -/
theorem not_structural (opening : String) {message : String} (opens : Opens opening message)
    (apart : Apart opening) : ¬Structural message := by
  intro structural
  obtain ⟨other, listed, begins⟩ := structural.exists_opens
  rcases List.prefix_or_prefix_of_prefix opens begins with front | front
  · exact (apart other listed).1 front
  · exact (apart other listed).2 front

/-! ## Lists of issues -/

/-- No issue is structural. -/
def Plain (issues : List Issue) : Prop := ∀ issue ∈ issues, ¬Structural issue.message

@[simp] theorem plain_nil : Plain [] := nofun

@[simp] theorem plain_append {front back : List Issue} :
    Plain (front ++ back) ↔ Plain front ∧ Plain back := List.forall_mem_append

theorem plain_singleton {issue : Issue} : Plain [issue] ↔ ¬Structural issue.message :=
  List.forall_mem_singleton

theorem plain_ite {P : Prop} [Decidable P] {issues : List Issue} :
    Plain (if P then issues else []) ↔ (P → Plain issues) := by
  split
  · next h => simp [h]
  · next h => simp [h]

theorem plain_flatMap {α : Type} {list : List α} {issues : α → List Issue} :
    Plain (list.flatMap issues) ↔ ∀ a ∈ list, Plain (issues a) := by
  simp only [Plain, List.mem_flatMap]
  exact ⟨fun h a member issue inside => h issue ⟨a, member, inside⟩,
    fun h issue ⟨a, member, inside⟩ => h a member issue inside⟩

/-- Structural issues about several things are absent only if there are none. -/
theorem plain_map_structural {α : Type} {list : List α} {issue : α → Issue}
    (structural : ∀ a, Structural (issue a).message) : Plain (list.map issue) ↔ list = [] := by
  cases list with
  | nil => simp
  | cons a rest =>
    refine iff_of_false (fun plain => ?_) (List.cons_ne_nil a rest)
    exact plain (issue a) List.mem_cons_self (structural a)

/-- An issue that stands alone, with a message that begins otherwise. -/
theorem plain_of_opens {issue : Issue} (opening : String) (opens : Opens opening issue.message)
    (apart : Apart opening) : Plain [issue] :=
  plain_singleton.2 (not_structural opening opens apart)

/-! ## Parts of a report -/

theorem plain_depthIssues (checker : Checker) (root : Node) : Plain (checker.depthIssues root) :=
  plain_ite.2 fun _ =>
    plain_of_opens "workflow depth " (((opens_self _).append _).append _ |>.append _) (by decide)

theorem plain_duplicateIssues (root : Node) : Plain (duplicateIssues root) ↔ root.ids.Nodup := by
  rw [duplicateIssues, plain_map_structural fun id => .duplicateId id, duplicates_eq_nil]

theorem plain_noChildren (node : Node) (kind : String)
    (structural : Structural (kind ++ " nodes cannot have children")) :
    Plain (noChildren node kind) ↔ node.children = [] := by
  rw [noChildren]
  split
  · next leaf => simpa using leaf
  · next inner => simpa [plain_singleton, structural] using inner

theorem plain_someChildren (node : Node) {message : String} (h : Apart message) :
    Plain (someChildren node message) :=
  plain_ite.2 fun _ => plain_of_opens message (opens_self _) h

theorem plain_retryIssues (checker : Checker) (id : String) (spec : TaskSpec) :
    Plain (checker.retryIssues id spec) :=
  plain_ite.2 fun _ =>
    plain_of_opens "retry_count " (((opens_self _).append _).append _ |>.append _) (by decide)

theorem plain_taskIssues (checker : Checker) (id : String) (spec : TaskSpec) :
    Plain (checker.taskIssues id spec) := by
  rw [taskIssues]
  split
  · exact plain_of_opens "task name is empty" (opens_self _) (by decide)
  · split
    · exact plain_nil
    · exact plain_of_opens "unknown task '" (((opens_self _).append _).append _) (by decide)

theorem plain_toolIssues (checker : Checker) (id : String) (spec : TaskSpec) :
    Plain (checker.toolIssues id spec) := by
  intro issue member
  obtain ⟨tool, -, rfl⟩ := List.mem_map.1 member
  exact not_structural "unknown tool '" (((opens_self _).append _).append _) (by decide)

theorem plain_referenceIssue (known : List String) (id reference : String) :
    Plain (referenceIssue known id reference) := by
  rw [referenceIssue]
  split
  · exact plain_of_opens "cyclic dependency: parameters reference the node's own result '"
      (((opens_self _).append _).append _) (by decide)
  · split
    · exact plain_nil
    · exact plain_of_opens "parameters reference unknown node '"
        (((opens_self _).append _).append _) (by decide)

theorem plain_conditionIssues (id text : String) : Plain (conditionIssues id text) := by
  rw [conditionIssues]
  split
  · exact plain_nil
  · exact plain_of_opens "invalid expression: " ((opens_self _).append _) (by decide)

theorem plain_roundIssues (checker : Checker) (id : String) (spec : LoopSpec) :
    Plain (checker.roundIssues id spec) := by
  rw [roundIssues]
  split
  · exact plain_of_opens "loop has no max_iterations; capped at "
      (((opens_self _).append _).append _) (by decide)
  · exact plain_ite.2 fun _ =>
      plain_of_opens "max_iterations " (((opens_self _).append _).append _ |>.append _) (by decide)

theorem plain_pollIssues (id : String) (spec : WaitSpec) : Plain (pollIssues id spec) :=
  plain_ite.2 fun _ => plain_of_opens "poll_interval must be greater than zero" (opens_self _)
    (by decide)

/-- A block whose children have distinct ids has no structural issue. -/
theorem plain_parallelIssues (checker : Checker) {node : Node}
    (distinct : (node.children.map Node.id).Nodup) (spec : ParallelSpec) :
    Plain (checker.parallelIssues node spec) := by
  simp only [parallelIssues, plain_append, plain_ite,
    repeatedChildren_eq_nil distinct fun _ _ => List.not_mem_nil, List.map_nil, plain_nil, and_true]
  refine ⟨⟨⟨fun _ => ?_, fun _ => ?_⟩, ?_⟩, fun _ => ?_⟩
  · exact plain_of_opens "parallel block has " (((opens_self _).append _).append _ |>.append _)
      (by decide)
  · exact plain_of_opens "max_concurrency must be at least 1" (opens_self _) (by decide)
  · exact plain_someChildren node (by decide)
  · exact plain_of_opens "parallel block with a single child runs sequentially" (opens_self _)
      (by decide)

theorem plain_branchIssues (node : Node) : Plain (branchIssues node) ↔
    node.children.countP (fun child => child.branch = some .onTrue) = 1 ∧
      node.children.countP (fun child => child.branch = some .onFalse) ≤ 1 ∧
      ∀ child ∈ node.children, child.branch ≠ none := by
  simp only [branchIssues, plain_append, plain_ite, plain_singleton, Structural.thenBranches,
    Structural.elseBranches, Structural.untagged, not_true_eq_false, imp_false, not_not, Nat.not_lt,
    Nat.le_zero, List.countP_eq_zero, decide_eq_true_eq, and_assoc]

/-! ## Trees -/

theorem regularAt_iff_leaf {node : Node} (works : node.kind.works = true) :
    RegularAt node ↔ node.children = [] := by
  refine ⟨fun h => h.leaf works, fun leaf => ⟨fun _ => leaf, fun condition => ?_⟩⟩
  cases kind : node.kind with
  | condition text =>
    rw [kind] at works
    cases works
  | task | sequence | parallel | loop | wait =>
    rw [kind] at condition
    cases condition

theorem regularAt_of_block {node : Node} (block : node.kind.works = false)
    (other : node.kind.nodeType ≠ .condition) : RegularAt node :=
  ⟨fun works => absurd works (ne_true_of_eq_false block), fun condition => absurd condition other⟩

/-- The issues of a node whose children have distinct ids are about its structure only if it is not
regular. -/
theorem plain_nodeIssues (checker : Checker) (known : List String) {node : Node}
    (distinct : (node.children.map Node.id).Nodup) :
    Plain (checker.nodeIssues known node) ↔ RegularAt node := by
  unfold nodeIssues
  cases kind : node.kind with
  | task spec =>
    rw [regularAt_iff_leaf (by rw [kind]; rfl)]
    simp only [plain_append, plain_noChildren node "task" .childOfTask, plain_retryIssues,
      plain_taskIssues, plain_toolIssues, plain_flatMap, plain_referenceIssue, implies_true,
      and_true]
  | sequence =>
    exact iff_of_true (plain_someChildren node (by decide))
      (regularAt_of_block (by rw [kind]; rfl) (by rw [kind]; nofun))
  | parallel spec =>
    exact iff_of_true (plain_parallelIssues checker distinct spec)
      (regularAt_of_block (by rw [kind]; rfl) (by rw [kind]; nofun))
  | condition text =>
    rw [plain_append, plain_branchIssues, and_iff_left (plain_conditionIssues node.id text)]
    refine ⟨fun branches => ⟨fun works => ?_, fun _ => branches⟩, fun h => h.branches ?_⟩
    · rw [kind] at works
      cases works
    · rw [kind]
      rfl
  | loop spec =>
    simp only [plain_append, plain_roundIssues, plain_conditionIssues, and_true, true_and]
    exact iff_of_true (plain_someChildren node (by decide))
      (regularAt_of_block (by rw [kind]; rfl) (by rw [kind]; nofun))
  | wait spec =>
    rw [regularAt_iff_leaf (by rw [kind]; rfl)]
    simp only [plain_append, plain_noChildren node "wait" .childOfWait, plain_pollIssues,
      plain_conditionIssues, and_true]

/-- A report has no structural issue if and only if its tree is regular. -/
theorem plain_validate (checker : Checker) (root : Node) :
    Plain (checker.validate root).issues ↔ Regular root := by
  simp only [validate, plain_append, plain_depthIssues, true_and, plain_duplicateIssues,
    plain_flatMap]
  have nodes (distinct : root.ids.Nodup) (node : Node) (member : node ∈ root.preorder) :
      Plain (checker.nodeIssues root.ids node) ↔ RegularAt node :=
    plain_nodeIssues checker root.ids
      (Node.nodup_child_ids (Node.nodup_ids_of_mem_preorder distinct member))
  constructor
  · rintro ⟨distinct, plain⟩
    exact ⟨distinct, fun node member => (nodes distinct node member).1 (plain node member)⟩
  · rintro ⟨distinct, regular⟩
    exact ⟨distinct, fun node member => (nodes distinct node member).2 (regular node member)⟩

end Checker

namespace Step

open Checker

theorem Tagged.branches {node : Node} (h : Tagged node)
    (condition : node.kind.nodeType = .condition) :
    node.children.countP (fun child => child.branch = some .onTrue) = 1 ∧
      node.children.countP (fun child => child.branch = some .onFalse) ≤ 1 ∧
      ∀ child ∈ node.children, child.branch ≠ none := by
  have count (branch : Option Branch) :
      node.children.countP (fun child => child.branch = branch) =
        (node.children.map Node.branch).countP (· = branch) := by
    rw [List.countP_map]
    rfl
  have tagged : (∀ child ∈ node.children, child.branch ≠ none) ↔
      ∀ branch ∈ node.children.map Node.branch, branch ≠ none := by
    rw [List.forall_mem_map]
  rw [count, count, tagged]
  rcases h.condition condition with only | both
  · rw [only]
    decide
  · rw [both]
    decide

/-- A tree that is read from steps is regular. -/
theorem regular_of_parse {steps : List Json} {root : Node} (h : parse steps = .ok root) :
    Regular root := by
  refine ⟨nodup_ids_of_parse h, fun node member => ⟨Plan.leafy_of_parse h node member, ?_⟩⟩
  obtain ⟨step, -, stands⟩ := exists_of_mem_right (forall₂_stands h) member
  exact stands.tagged.branches

/-- Whatever a tree that is read from steps is checked against, the report has no issue about an id
that occurs twice, in the tree or in a parallel block, about children of a task or of a wait, or
about the branches of a condition. -/
theorem no_structural_issue {steps : List Json} {root : Node} (h : parse steps = .ok root)
    (checker : Checker) : ∀ issue ∈ (checker.validate root).issues, ¬Structural issue.message :=
  (plain_validate checker root).2 (regular_of_parse h)

/-- A condition that is checked against limits of zero: there are issues, and none is structural. -/
theorem no_structural_issue_branching : parse branching = .ok branched ∧
    (validate ⟨⟨0, 0, 0, 0, .zero⟩, ⟨some [], none⟩⟩ branched).issues ≠ [] ∧
    ∀ issue ∈ (validate ⟨⟨0, 0, 0, 0, .zero⟩, ⟨some [], none⟩⟩ branched).issues,
      ¬Structural issue.message := by
  have read : parse branching = .ok branched := by cbv
  refine ⟨read, ?_, no_structural_issue read _⟩
  rw [validate, depthIssues, if_pos (by decide)]
  exact List.cons_ne_nil _ _

end Step

end Stepwise
