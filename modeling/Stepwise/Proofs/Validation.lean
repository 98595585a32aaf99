import Mathlib.Data.List.Nodup
import Stepwise.Validation
import Stepwise.Proofs.Node.Tree
import Stepwise.Proofs.Template.References

/-!
# Well-formed trees

What a tree must be like to be valid, said without the issues that a check lists: `WellFormed`.
Each part of the check is clean, which is to say without errors, if and only if what it looks at
is as it should be, so `isValid_iff` holds: the valid trees are the well-formed ones, no more and
no fewer.
-/

namespace Stepwise

/-- A name may be used: names are not restricted, or it is a known one. -/
def Catalog.Allows (names : Names) (name : String) : Prop :=
  ∀ known, names = some known → name ∈ known

/-- A text is a condition. -/
def Condition.Compiles (text : String) : Prop := ∃ condition, compile text = .ok condition

namespace Checker

/-- A task has nothing below it and a name that is not blank, names what is known, and does not ask
for its own result. -/
structure TaskFits (checker : Checker) (node : Node) (spec : TaskSpec) : Prop where
  leaf : node.children = []
  named : ∃ c ∈ spec.task.toList, Text.isBlank c = false
  known : Catalog.Allows checker.catalog.tasks spec.task
  tools : ∀ tool ∈ spec.tools, Catalog.Allows checker.catalog.tools tool
  apart : ¬ Template.AsksFor (.obj spec.parameters) node.id

/-- A parallel block has not too many children, and a lane at least if it says how many. -/
structure BlockFits (checker : Checker) (node : Node) (spec : ParallelSpec) : Prop where
  narrow : node.children.length ≤ checker.limits.parallelTasks.toNat
  lanes : spec.maxConcurrency ≠ some 0

/-- A condition has one child for true, perhaps one for false and no other, and can be read. -/
structure ChoiceFits (node : Node) (text : String) : Prop where
  yes : node.children.countP (fun child => child.branch = some .onTrue) = 1
  no : node.children.countP (fun child => child.branch = some .onFalse) ≤ 1
  tagged : ∀ child ∈ node.children, child.branch ≠ none
  readable : Condition.Compiles text

/-- A loop has not too many rounds, if it limits them, and its condition can be read. -/
structure LoopFits (checker : Checker) (spec : LoopSpec) : Prop where
  bounded : ∀ n, spec.maxIterations = some n → n ≤ checker.limits.loopIterations
  readable : Condition.Compiles spec.condition

/-- A wait has nothing below it, takes some time between two looks at its condition, and this can
be read. -/
structure WaitFits (node : Node) (spec : WaitSpec) : Prop where
  leaf : node.children = []
  paced : spec.pollInterval ≠ some .zero
  readable : Condition.Compiles spec.condition

/-- What is asked of a node by its kind. -/
def Fits (checker : Checker) (node : Node) : Prop :=
  match node.kind with
  | .task spec => checker.TaskFits node spec
  | .sequence => True
  | .parallel spec => checker.BlockFits node spec
  | .condition text => ChoiceFits node text
  | .loop spec => checker.LoopFits spec
  | .wait spec => WaitFits node spec

/-- A tree that is not too deep, has no id twice, and whose nodes are as they should be. -/
structure WellFormed (checker : Checker) (root : Node) : Prop where
  shallow : root.depth ≤ checker.limits.depth.toNat
  distinct : root.ids.Nodup
  fits : ∀ node ∈ root.preorder, checker.Fits node

/-! ## Clean lists of issues -/

/-- No issue is an error. -/
def Clean (issues : List Issue) : Prop := ∀ issue ∈ issues, issue.isError = false

theorem isValid_iff_clean (report : Report) : report.isValid = true ↔ Clean report.issues := by
  simp [Report.isValid, Clean]

@[simp] theorem clean_nil : Clean [] := nofun

@[simp] theorem clean_append {front back : List Issue} :
    Clean (front ++ back) ↔ Clean front ∧ Clean back := List.forall_mem_append

/-- A single error stands where something is not as it should be. -/
@[simp] theorem clean_error_iff {message : String} {nodeId suggestion : Option String} :
    Clean [⟨.error, message, nodeId, suggestion⟩] ↔ False := by
  simp [Clean, Issue.isError]

@[simp] theorem clean_warning {message : String} {nodeId suggestion : Option String} :
    Clean [⟨.warning, message, nodeId, suggestion⟩] := by
  simp [Clean, Issue.isError]

@[simp] theorem clean_info {message : String} {nodeId suggestion : Option String} :
    Clean [⟨.info, message, nodeId, suggestion⟩] := by
  simp [Clean, Issue.isError]

/-- What is listed only where something is wrong is clean if it is not wrong, or no error. -/
theorem clean_ite {P : Prop} [Decidable P] {issues : List Issue} :
    Clean (if P then issues else []) ↔ (P → Clean issues) := by
  split
  · next h => simp [h]
  · next h => simp [h]

theorem clean_flatMap {α : Type} {list : List α} {issues : α → List Issue} :
    Clean (list.flatMap issues) ↔ ∀ a ∈ list, Clean (issues a) := by
  simp only [Clean, List.mem_flatMap]
  exact ⟨fun h a member issue inside => h issue ⟨a, member, inside⟩,
    fun h issue ⟨a, member, inside⟩ => h a member issue inside⟩

/-- An error for each of several things is clean only if there are none. -/
theorem clean_map {α : Type} {list : List α} {issue : α → Issue}
    (error : ∀ a, (issue a).severity = .error) : Clean (list.map issue) ↔ list = [] := by
  cases list with
  | nil => simp
  | cons a rest => simp [Clean, Issue.isError, error]

/-! ## The tree as a whole -/

theorem clean_depthIssues (checker : Checker) (root : Node) :
    Clean (checker.depthIssues root) ↔ root.depth ≤ checker.limits.depth.toNat := by
  rw [depthIssues, clean_ite]
  simp

theorem duplicates_eq_nil {ids : List String} : duplicates ids = [] ↔ ids.Nodup := by
  rw [List.eq_nil_iff_forall_not_mem, List.nodup_iff_count_le_one]
  simp only [duplicates, List.mem_eraseDups, List.mem_mergeSort, List.mem_filter,
    decide_eq_true_eq, not_and, Nat.not_lt]
  constructor
  · intro once id
    by_cases member : id ∈ ids
    · exact once id member
    · rw [List.count_eq_zero_of_not_mem member]
      exact Nat.zero_le 1
  · exact fun once id _ => once id

theorem clean_duplicateIssues (root : Node) : Clean (duplicateIssues root) ↔ root.ids.Nodup := by
  rw [duplicateIssues, clean_map fun _ => rfl, duplicates_eq_nil]

/-! ## Parts of nodes -/

theorem clean_noChildren (node : Node) (kind : String) :
    Clean (noChildren node kind) ↔ node.children = [] := by
  rw [noChildren]
  split
  · next leaf => simpa using leaf
  · next inner => simpa using inner

theorem clean_someChildren (node : Node) (message : String) :
    Clean (someChildren node message) := by
  rw [someChildren, clean_ite]
  exact fun _ => clean_warning

theorem clean_retryIssues (checker : Checker) (id : String) (spec : TaskSpec) :
    Clean (checker.retryIssues id spec) := by
  rw [retryIssues, clean_ite]
  exact fun _ => clean_warning

theorem knows_iff {names : Names} {name : String} :
    Catalog.knows names name = true ↔ Catalog.Allows names name := by
  cases names with
  | none => simp [Catalog.knows, Catalog.Allows]
  | some known => simp [Catalog.knows, Catalog.Allows]

theorem clean_taskIssues (checker : Checker) (id : String) (spec : TaskSpec) :
    Clean (checker.taskIssues id spec) ↔
      (∃ c ∈ spec.task.toList, Text.isBlank c = false) ∧
        Catalog.Allows checker.catalog.tasks spec.task := by
  have named : Text.isBlankText spec.task = false ↔
      ∃ c ∈ spec.task.toList, Text.isBlank c = false := by
    simp [Text.isBlankText]
  rw [← named, ← knows_iff, ← Catalog.hasTask, taskIssues]
  cases Text.isBlankText spec.task with
  | true => simp
  | false => cases checker.catalog.hasTask spec.task <;> simp

theorem clean_toolIssues (checker : Checker) (id : String) (spec : TaskSpec) :
    Clean (checker.toolIssues id spec) ↔
      ∀ tool ∈ spec.tools, Catalog.Allows checker.catalog.tools tool := by
  rw [toolIssues, clean_map fun _ => rfl, List.filter_eq_nil_iff]
  simp only [Bool.not_eq_true', Bool.not_eq_false, Catalog.hasTool, knows_iff]

/-- A reference is an error only if it is to the node itself. -/
theorem clean_referenceIssue (known : List String) (id reference : String) :
    Clean (referenceIssue known id reference) ↔ reference ≠ id := by
  rw [referenceIssue]
  split
  · next own => simpa using own
  · next other =>
    split
    · simpa using other
    · simpa using other

theorem clean_references (known : List String) (id : String) (spec : TaskSpec) :
    Clean (spec.references.flatMap (referenceIssue known id)) ↔
      ¬ Template.AsksFor (.obj spec.parameters) id := by
  rw [clean_flatMap, ← Template.mem_references, ← TaskSpec.references]
  simp only [clean_referenceIssue]
  exact ⟨fun apart member => apart id member rfl, fun apart reference member own =>
    apart (own ▸ member)⟩

theorem clean_conditionIssues (id text : String) :
    Clean (conditionIssues id text) ↔ Condition.Compiles text := by
  rw [conditionIssues, Condition.Compiles]
  cases Condition.compile text with
  | ok condition => simp
  | error fault => simp

/-- Children with pairwise distinct ids repeat none, and none that was seen elsewhere. -/
theorem repeatedChildren_eq_nil {children : List Node} (distinct : (children.map Node.id).Nodup)
    {seen : List String} (apart : ∀ child ∈ children, child.id ∉ seen) :
    repeatedChildren seen children = [] := by
  induction children generalizing seen with
  | nil => rfl
  | cons child rest ih =>
    rw [List.map_cons, List.nodup_cons] at distinct
    rw [List.forall_mem_cons] at apart
    rw [repeatedChildren, if_neg (by simpa using apart.1)]
    refine ih distinct.2 fun other member inside => ?_
    rcases List.mem_cons.1 inside with same | inside
    · exact distinct.1 (List.mem_map.2 ⟨other, member, same⟩)
    · exact apart.2 other member inside

theorem clean_parallelIssues (checker : Checker) {node : Node}
    (distinct : (node.children.map Node.id).Nodup) (spec : ParallelSpec) :
    Clean (checker.parallelIssues node spec) ↔ checker.BlockFits node spec := by
  simp only [parallelIssues, clean_append, clean_ite, clean_error_iff, clean_info, implies_true, and_true,
    Nat.not_lt, imp_false]
  rw [repeatedChildren_eq_nil distinct fun _ _ => List.not_mem_nil]
  have some := clean_someChildren node "parallel block has no children"
  exact ⟨fun h => ⟨h.1.1.1, h.1.1.2⟩, fun h => ⟨⟨⟨h.narrow, h.lanes⟩, clean_nil⟩, some⟩⟩

theorem clean_branchIssues (node : Node) : Clean (branchIssues node) ↔
    node.children.countP (fun child => child.branch = some .onTrue) = 1 ∧
      node.children.countP (fun child => child.branch = some .onFalse) ≤ 1 ∧
      ∀ child ∈ node.children, child.branch ≠ none := by
  simp only [branchIssues, clean_append, clean_ite, clean_error_iff, imp_false, not_not,
    Nat.not_lt, Nat.le_zero, List.countP_eq_zero, decide_eq_true_eq, and_assoc]

theorem clean_roundIssues (checker : Checker) (id : String) (spec : LoopSpec) :
    Clean (checker.roundIssues id spec) ↔
      ∀ n, spec.maxIterations = some n → n ≤ checker.limits.loopIterations := by
  rw [roundIssues]
  split
  · next none => simp [none]
  · next n some =>
    rw [clean_ite, some]
    simp

theorem clean_pollIssues (id : String) (spec : WaitSpec) :
    Clean (pollIssues id spec) ↔ spec.pollInterval ≠ some .zero := by
  rw [pollIssues, clean_ite]
  simp

/-! ## Nodes and trees -/

/-- In a tree with pairwise distinct ids, the check of a node is clean if the node fits. -/
theorem clean_nodeIssues (checker : Checker) (known : List String) {node : Node}
    (distinct : (node.children.map Node.id).Nodup) :
    Clean (checker.nodeIssues known node) ↔ checker.Fits node := by
  unfold nodeIssues Fits
  cases node.kind with
  | task spec =>
    simp only [clean_append, clean_noChildren, clean_retryIssues, clean_taskIssues,
      clean_toolIssues, clean_references, and_true]
    exact ⟨fun ⟨⟨⟨leaf, named, known⟩, tools⟩, apart⟩ => ⟨leaf, named, known, tools, apart⟩,
      fun h => ⟨⟨⟨h.leaf, h.named, h.known⟩, h.tools⟩, h.apart⟩⟩
  | sequence => simp only [clean_someChildren]
  | parallel spec => exact clean_parallelIssues checker distinct spec
  | condition text =>
    rw [clean_append, clean_branchIssues, clean_conditionIssues]
    exact ⟨fun ⟨⟨yes, no, tagged⟩, readable⟩ => ⟨yes, no, tagged, readable⟩,
      fun h => ⟨⟨h.yes, h.no, h.tagged⟩, h.readable⟩⟩
  | loop spec =>
    simp only [clean_append, clean_roundIssues, clean_someChildren, clean_conditionIssues, and_true]
    exact ⟨fun ⟨bounded, readable⟩ => ⟨bounded, readable⟩, fun h => ⟨h.bounded, h.readable⟩⟩
  | wait spec =>
    simp only [clean_append, clean_noChildren, clean_pollIssues, clean_conditionIssues]
    exact ⟨fun ⟨⟨leaf, paced⟩, readable⟩ => ⟨leaf, paced, readable⟩,
      fun h => ⟨⟨h.leaf, h.paced⟩, h.readable⟩⟩

/-- In a valid tree no id is there twice. -/
theorem distinct_of_isValid {checker : Checker} {root : Node}
    (valid : (checker.validate root).isValid = true) : root.ids.Nodup := by
  rw [isValid_iff_clean] at valid
  simp only [validate, clean_append, clean_duplicateIssues] at valid
  exact valid.1.2

/-- The nodes of a valid tree are as they should be. -/
theorem fits_of_isValid {checker : Checker} {root node : Node}
    (valid : (checker.validate root).isValid = true) (member : node ∈ root.preorder) :
    checker.Fits node := by
  have distinct := Node.nodup_ids_of_mem_preorder (distinct_of_isValid valid) member
  rw [isValid_iff_clean] at valid
  simp only [validate, clean_append, clean_flatMap] at valid
  exact (clean_nodeIssues checker root.ids (Node.nodup_child_ids distinct)).1 (valid.2 node member)

/-- A tree is valid if and only if it is well-formed. -/
theorem isValid_iff (checker : Checker) (root : Node) :
    (checker.validate root).isValid = true ↔ checker.WellFormed root := by
  rw [isValid_iff_clean]
  simp only [validate, clean_append, clean_depthIssues, clean_duplicateIssues, clean_flatMap]
  -- Whichever side is given, no id is there twice, so no block repeats a child.
  have nodes (distinct : root.ids.Nodup) (node : Node) (member : node ∈ root.preorder) :
      Clean (checker.nodeIssues root.ids node) ↔ checker.Fits node :=
    clean_nodeIssues checker root.ids
      (Node.nodup_child_ids (Node.nodup_ids_of_mem_preorder distinct member))
  constructor
  · rintro ⟨⟨shallow, distinct⟩, clean⟩
    exact ⟨shallow, distinct, fun node member => (nodes distinct node member).1 (clean node member)⟩
  · rintro ⟨shallow, distinct, fits⟩
    exact ⟨⟨shallow, distinct⟩, fun node member => (nodes distinct node member).2 (fits node member)⟩

end Checker

end Stepwise
