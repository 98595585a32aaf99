import Stepwise.Node.Basic
import Stepwise.Template

/-!
# Predecessors

For every node of a tree, the nodes that it waits for: the sibling before it in a sequence or a
loop, or else its parent, and the nodes whose results its parameters ask for.
-/

namespace Stepwise

/-- The nodes whose results the parameters of a task ask for. -/
def TaskSpec.references (spec : TaskSpec) : List String :=
  Template.references (.obj spec.parameters)

/-- The references of a task; other nodes have none. -/
def Kind.references : Kind → List String
  | .task spec => spec.references
  | _ => []

namespace Plan

/-- The predecessors of one node: the one `before` it, then those known nodes that it refers to. -/
def predecessorsOf (known : List String) (before : Option String) (id : String) (kind : Kind) :
    List String :=
  before.toList ++
    kind.references.filter (fun r => r ≠ id && known.contains r && !before.toList.contains r)

mutual

/-- The predecessors of the nodes of a tree, in preorder. -/
def predecessorList (known : List String) (before : Option String) (node : Node) :
    List (String × List String) :=
  match node with
  | ⟨id, kind, children, _, _⟩ =>
    let more := match kind with
      | .sequence => predecessorsInTurn known id children
      | .loop _ => predecessorsInTurn known id children
      | _ => predecessorsBelow known id children
    (id, predecessorsOf known before id kind) :: more

/-- The predecessors in trees of which each follows the one before. -/
def predecessorsInTurn (known : List String) (before : String) :
    List Node → List (String × List String)
  | [] => []
  | node :: rest =>
    predecessorList known (some before) node ++ predecessorsInTurn known node.id rest

/-- The predecessors in trees that all follow their parent. -/
def predecessorsBelow (known : List String) (parent : String) :
    List Node → List (String × List String)
  | [] => []
  | node :: rest =>
    predecessorList known (some parent) node ++ predecessorsBelow known parent rest

end

/-- The predecessors of every node of a tree, by its id. -/
def predecessors (root : Node) : Table (List String) :=
  .ofList (predecessorList root.ids none root)

end Plan

end Stepwise
