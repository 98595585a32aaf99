import Stepwise.Json.Basic
import Stepwise.Duration

/-!
# Step trees

A workflow is a tree of nodes. Tasks and waits do the work; sequences, parallel blocks,
conditions and loops say when. `preorder` lists a node before its descendants by recursion, and
`walk` by a traversal that keeps the trees still to be visited on a stack.
-/

namespace Stepwise

/-- What a task calls, and how often. -/
structure TaskSpec where
  task : String
  tools : List String
  parameters : Table Json
  retries : UInt32
  timeout : Option Duration
  description : Option String

/-- How the children of a parallel block run together. -/
structure ParallelSpec where
  maxConcurrency : Option UInt64
  failFast : Bool
  waitForAll : Bool
deriving DecidableEq, Repr

/-- A block that waits for all its children and stops at the first failure. -/
def ParallelSpec.standard : ParallelSpec := ⟨none, true, true⟩

/-- How often a body runs. -/
structure LoopSpec where
  condition : String
  maxIterations : Option UInt64
  breakOnError : Bool
deriving DecidableEq, Repr

/-- What a wait waits for, and for how long. -/
structure WaitSpec where
  condition : String
  timeout : Option Duration
  pollInterval : Option Duration
deriving DecidableEq, Repr

/-- What a node does. -/
inductive Kind where
  | task (spec : TaskSpec)
  | sequence
  | parallel (spec : ParallelSpec)
  | condition (condition : String)
  | loop (spec : LoopSpec)
  | wait (spec : WaitSpec)

/-- The kinds of nodes by their names alone. -/
inductive NodeType where
  | task
  | sequence
  | parallel
  | condition
  | loop
  | wait
deriving DecidableEq, Repr

namespace NodeType

/-- The name of a type, as it is written. -/
def name : NodeType → String
  | .task => "task"
  | .sequence => "sequence"
  | .parallel => "parallel"
  | .condition => "condition"
  | .loop => "loop"
  | .wait => "wait"

/-- The name in events. -/
def label : NodeType → String
  | .task => "TASK"
  | .sequence => "SEQUENCE"
  | .parallel => "PARALLEL"
  | .condition => "CONDITION"
  | .loop => "LOOP"
  | .wait => "WAIT"

/-- The type of a label. -/
def ofLabel? : String → Option NodeType
  | "TASK" => some .task
  | "SEQUENCE" => some .sequence
  | "PARALLEL" => some .parallel
  | "CONDITION" => some .condition
  | "LOOP" => some .loop
  | "WAIT" => some .wait
  | _ => none

end NodeType

/-- The type of a kind, without what it specifies. -/
def Kind.nodeType : Kind → NodeType
  | .task _ => .task
  | .sequence => .sequence
  | .parallel _ => .parallel
  | .condition _ => .condition
  | .loop _ => .loop
  | .wait _ => .wait

/-- The name of a kind. -/
def Kind.name (kind : Kind) : String := kind.nodeType.name

/-- The side of a condition that a child stands on. -/
inductive Branch where
  | onTrue
  | onFalse
deriving DecidableEq, Repr

/-- A node with its children in their order. -/
structure Node where
  id : String
  kind : Kind
  children : List Node
  branch : Option Branch
  tags : Table Json

namespace Node

/-- A node without tags that is on no branch. -/
def make (id : String) (kind : Kind) (children : List Node) : Node := ⟨id, kind, children, none, []⟩

/-- The node as a branch of a condition. -/
def withBranch (node : Node) (branch : Branch) : Node := { node with branch := some branch }

/-- A condition with the child for true and perhaps one for false. -/
def makeCondition (id condition : String) (yes : Node) (no : Option Node) : Node :=
  make id (.condition condition)
    (yes.withBranch .onTrue :: (no.map (·.withBranch .onFalse)).toList)

/-- The first child on a branch. -/
def child? (node : Node) (branch : Branch) : Option Node :=
  node.children.find? (fun child => child.branch == some branch)

mutual

/-- The node, then the lists of its children in their order. -/
def preorder (node : Node) : List Node :=
  match node with
  | ⟨id, kind, children, branch, tags⟩ =>
    ⟨id, kind, children, branch, tags⟩ :: preorderAll children

/-- The nodes of some trees, one tree after the other. -/
def preorderAll : List Node → List Node
  | [] => []
  | node :: rest => preorder node ++ preorderAll rest

end

mutual

/-- The number of levels. -/
def depth (node : Node) : Nat :=
  match node with
  | ⟨_, _, children, _, _⟩ => depthAll children + 1

/-- The depth of the deepest of some trees. -/
def depthAll : List Node → Nat
  | [] => 0
  | node :: rest => max (depth node) (depthAll rest)

end

theorem preorder_eq (node : Node) : node.preorder = node :: preorderAll node.children := by
  cases node
  rfl

theorem depth_eq (node : Node) : node.depth = depthAll node.children + 1 := by
  cases node
  rfl

theorem preorderAll_append (a b : List Node) :
    preorderAll (a ++ b) = preorderAll a ++ preorderAll b := by
  induction a with
  | nil => rfl
  | cons node rest ih => simp only [List.cons_append, preorderAll, ih, List.append_assoc]

/-- A traversal of trees under way: the trees still to be visited, with the next one on top, at the
end of the stack. -/
structure Traversal where
  stack : Array Node

namespace Traversal

/-- A traversal that begins: of several trees the first one is on top. -/
def ofTrees (trees : List Node) : Traversal := ⟨trees.reverse.toArray⟩

/-- The next node, and the traversal from there. The node leaves the stack and its children come on
it in reverse, so that the first of them is on top. -/
def next? (t : Traversal) : Option (Node × Traversal) :=
  match t.stack.back? with
  | none => none
  | some node => some (node, ⟨t.stack.pop ++ node.children.reverse⟩)

/-- The nodes still to come: the trees on the stack from the top down, each in preorder. -/
def ahead (t : Traversal) : List Node := preorderAll t.stack.toList.reverse

/-- A visit takes the first of the nodes still to come, and leaves the others as they are. -/
theorem ahead_of_next? {t rest : Traversal} {node : Node} (step : t.next? = some (node, rest)) :
    t.ahead = node :: rest.ahead := by
  obtain ⟨stack⟩ := t
  simp only [next?] at step
  split at step
  · cases step
  · next top found =>
    obtain ⟨below, rfl⟩ := Array.back?_eq_some_iff.1 found
    obtain ⟨rfl, rfl⟩ := Prod.mk.inj (Option.some.inj step)
    simp [ahead, preorderAll, preorder_eq, preorderAll_append]

/-- The nodes that a traversal comes upon until it has no next one. -/
def toList (t : Traversal) : List Node :=
  match step : t.next? with
  | none => []
  | some (node, rest) =>
    have : rest.ahead.length < t.ahead.length := by simp [ahead_of_next? step]
    node :: rest.toList
termination_by t.ahead.length

end Traversal

/-- The nodes of trees, as a traversal comes upon them. -/
def walk (trees : List Node) : List Node := (Traversal.ofTrees trees).toList

/-- The number of nodes. -/
def count (node : Node) : Nat := (walk [node]).length

/-- The first node of an id. -/
def find? (node : Node) (id : String) : Option Node := (walk [node]).find? (·.id == id)

/-- The ids of all nodes, in preorder. -/
def ids (node : Node) : List String := node.preorder.map Node.id

end Node

end Stepwise
