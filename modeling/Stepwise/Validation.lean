import Stepwise.Catalog
import Stepwise.Condition.Evaluator
import Stepwise.Plan.Estimate
import Stepwise.Plan.Predecessors
import Stepwise.Plan.Stages

/-!
# Validation

The check of a tree before it runs. `validate` lists the issues of the tree as a whole, then
those of its nodes in preorder, and plans the run whether or not there are any. A tree without
errors is valid; warnings and remarks do not matter.
-/

namespace Stepwise

/-- What a tree is checked against. -/
structure Checker where
  limits : Limits
  catalog : Catalog

/-- The issues of a tree and the plan of its run. -/
structure Report where
  issues : List Issue
  stages : List Plan.Stage
  predecessors : Table (List String)
  estimate : Duration

namespace Report

/-- A tree is valid if no issue of its report is an error. -/
def isValid (report : Report) : Bool := !report.issues.any Issue.isError

/-- The errors of a report, in their order. -/
def errors (report : Report) : List Issue := report.issues.filter Issue.isError

/-- The warnings of a report, in their order. -/
def warnings (report : Report) : List Issue :=
  report.issues.filter (fun issue => issue.severity = .warning)

/-- The members of a report in the order of its record. -/
def members (report : Report) : List (String × Json) :=
  [("is_valid", .bool report.isValid),
    ("issues", .arr (report.issues.map (fun issue => .obj issue.members))),
    ("execution_order", .arr (report.stages.map (fun stage => .arr (stage.map .str)))),
    ("dependency_graph", .obj (report.predecessors.mapValues (fun ids => .arr (ids.map .str)))),
    ("estimated_duration", .float report.estimate.seconds)]

end Report

namespace Checker

/-- The tree is not too deep. -/
def depthIssues (checker : Checker) (root : Node) : List Issue :=
  if checker.limits.depth.toNat < root.depth then
    [⟨.error, "workflow depth " ++ toString root.depth ++ " exceeds maximum "
        ++ toString checker.limits.depth.toNat, some root.id, some "Flatten nested blocks"⟩]
  else []

/-- The ids that occur more than once, in their order. -/
def duplicates (ids : List String) : List String :=
  ((ids.filter (fun id => 1 < ids.count id)).mergeSort (fun a b => decide (a ≤ b))).eraseDups

/-- No id occurs twice. -/
def duplicateIssues (root : Node) : List Issue :=
  (duplicates root.ids).map
    (fun id => ⟨.error, "duplicate node id '" ++ id ++ "'", some id, none⟩)

/-- The issue of a node that has children and may not. -/
def noChildren (node : Node) (kind : String) : List Issue :=
  if node.children.isEmpty then []
  else [⟨.error, kind ++ " nodes cannot have children", some node.id, none⟩]

/-- A block that does nothing. -/
def someChildren (node : Node) (message : String) : List Issue :=
  if node.children.isEmpty then [⟨.warning, message, some node.id, none⟩] else []

/-- The warning about a task that is tried too often. -/
def retryIssues (checker : Checker) (id : String) (spec : TaskSpec) : List Issue :=
  if checker.limits.taskRetries < spec.retries then
    [⟨.warning, "retry_count " ++ toString spec.retries.toNat ++ " exceeds recommended maximum "
        ++ toString checker.limits.taskRetries.toNat, some id, none⟩]
  else []

/-- How a name is suggested. -/
def didYouMean (name : String) : String := "did you mean '" ++ name ++ "'?"

/-- The name of a task is a known one. -/
def taskIssues (checker : Checker) (id : String) (spec : TaskSpec) : List Issue :=
  if Text.isBlankText spec.task then [⟨.error, "task name is empty", some id, none⟩]
  else if checker.catalog.hasTask spec.task then []
  else
    [⟨.error, "unknown task '" ++ spec.task ++ "'", some id,
        (checker.catalog.suggestTask spec.task).map didYouMean⟩]

/-- What is said about a tool that is not known. -/
def toolIssue (checker : Checker) (id : String) (tool : String) : Issue :=
  let suggestion := match checker.catalog.suggestTool tool with
    | some close => didYouMean close
    | none => "available tools: " ++ ", ".intercalate (Catalog.listed checker.catalog.tools)
  ⟨.error, "unknown tool '" ++ tool ++ "'", some id, some suggestion⟩

/-- The tools of a task are known ones. -/
def toolIssues (checker : Checker) (id : String) (spec : TaskSpec) : List Issue :=
  (spec.tools.filter (fun tool => !checker.catalog.hasTool tool)).map (checker.toolIssue id)

/-- A task does not refer to itself, nor to nodes that do not exist. -/
def referenceIssue (known : List String) (id : String) (reference : String) : List Issue :=
  if reference = id then
    [⟨.error, "cyclic dependency: parameters reference the node's own result '" ++ reference ++ "'",
        some id, none⟩]
  else if known.contains reference then []
  else [⟨.warning, "parameters reference unknown node '" ++ reference ++ "'", some id, none⟩]

/-- A condition can be read. -/
def conditionIssues (id condition : String) : List Issue :=
  match Condition.compile condition with
  | .ok _ => []
  | .error fault =>
    [⟨.error, "invalid expression: " ++ fault.message, some id, fault.advice⟩]

/-- The ids of children that an earlier child has. -/
def repeatedChildren (seen : List String) : List Node → List String
  | [] => []
  | child :: rest =>
    if seen.contains child.id then child.id :: repeatedChildren seen rest
    else repeatedChildren (child.id :: seen) rest

/-- The issues of a parallel block: its children are too many, or its lanes are none. -/
def parallelIssues (checker : Checker) (node : Node) (spec : ParallelSpec) : List Issue :=
  let n := node.children.length
  (if checker.limits.parallelTasks.toNat < n then
    [⟨.error, "parallel block has " ++ toString n ++ " children, maximum is "
        ++ toString checker.limits.parallelTasks.toNat, some node.id, none⟩]
  else [])
  ++ (if spec.maxConcurrency = some 0 then
    [⟨.error, "max_concurrency must be at least 1", some node.id, none⟩]
  else [])
  ++ (repeatedChildren [] node.children).map (fun id =>
    ⟨.error, "duplicate child id '" ++ id ++ "' in parallel block", some node.id, none⟩)
  ++ someChildren node "parallel block has no children"
  ++ (if n = 1 then
    [⟨.info, "parallel block with a single child runs sequentially", some node.id, none⟩]
  else [])

/-- One branch for true, at most one for false, and nothing else. -/
def branchIssues (node : Node) : List Issue :=
  let yes := node.children.countP (fun child => child.branch = some .onTrue)
  let no := node.children.countP (fun child => child.branch = some .onFalse)
  let untagged := node.children.countP (fun child => child.branch = none)
  (if yes ≠ 1 then
    [⟨.error, "condition needs exactly one then branch, found " ++ toString yes, some node.id, none⟩]
  else [])
  ++ (if 1 < no then
    [⟨.error, "condition allows at most one else branch, found " ++ toString no, some node.id,
        none⟩]
  else [])
  ++ (if 0 < untagged then
    [⟨.error, "condition has " ++ toString untagged ++ " child(ren) without a branch tag",
        some node.id, none⟩]
  else [])

/-- The rounds of a loop are limited, and not too many. -/
def roundIssues (checker : Checker) (id : String) (spec : LoopSpec) : List Issue :=
  match spec.maxIterations with
  | none =>
    [⟨.warning, "loop has no max_iterations; capped at " ++ toString standardIterations.toNat
        ++ " at runtime", some id, none⟩]
  | some n =>
    if checker.limits.loopIterations < n then
      [⟨.error, "max_iterations " ++ toString n.toNat ++ " exceeds maximum "
          ++ toString checker.limits.loopIterations.toNat, some id, none⟩]
    else []

/-- The issue of a wait that would look at its condition without a pause. -/
def pollIssues (id : String) (spec : WaitSpec) : List Issue :=
  if spec.pollInterval = some .zero then
    [⟨.error, "poll_interval must be greater than zero", some id, none⟩]
  else []

/-- The issues of one node, in a tree of known ids. -/
def nodeIssues (checker : Checker) (known : List String) (node : Node) : List Issue :=
  match node.kind with
  | .task spec =>
    noChildren node "task" ++ checker.retryIssues node.id spec ++ checker.taskIssues node.id spec
      ++ checker.toolIssues node.id spec
      ++ spec.references.flatMap (referenceIssue known node.id)
  | .sequence => someChildren node "sequence has no steps"
  | .parallel spec => checker.parallelIssues node spec
  | .condition text => branchIssues node ++ conditionIssues node.id text
  | .loop spec =>
    checker.roundIssues node.id spec ++ someChildren node "loop body is empty"
      ++ conditionIssues node.id spec.condition
  | .wait spec =>
    noChildren node "wait" ++ pollIssues node.id spec ++ conditionIssues node.id spec.condition

/-- Checks a tree and plans its run. -/
def validate (checker : Checker) (root : Node) : Report where
  issues := checker.depthIssues root ++ duplicateIssues root
    ++ root.preorder.flatMap (checker.nodeIssues root.ids)
  stages := Plan.stages root
  predecessors := Plan.predecessors root
  estimate := Plan.estimate checker.limits.taskEstimate root

end Checker

end Stepwise
