import Stepwise.Step.Naming
import Stepwise.Yaml.Reader

/-!
# Trees of steps

Every step becomes one node, and several steps where one node is wanted become the children of a
sequence: those of a branch, and those of the whole list. Ids are given from the outside in and
from the left.
-/

namespace Stepwise.Step

/-- A sequence around some nodes, if it has an id, or else the nodes. -/
def wrap (wrapper : Option String) (nodes : List Node) : List Node :=
  match wrapper with
  | some id => [.make id .sequence nodes]
  | none => nodes

mutual

/-- The node of a step. -/
def build (naming : Naming) : Step → Node × Naming
  | .task head spec =>
    let (id, naming) := naming.taskId head.id spec.task
    (⟨id, .task spec, [], none, head.tags⟩, naming)
  | .sequence head steps =>
    let (id, naming) := naming.blockId head.id "sequence"
    let (children, naming) := buildAll naming steps
    (⟨id, .sequence, children, none, head.tags⟩, naming)
  | .parallel head spec steps =>
    let (id, naming) := naming.blockId head.id "parallel"
    let (children, naming) := buildAll naming steps
    (⟨id, .parallel spec, children, none, head.tags⟩, naming)
  | .condition head text yes no =>
    let (id, naming) := naming.blockId head.id "condition"
    let (yesWrapper, naming) := naming.wrapperId yes
    let (yesNodes, naming) := buildAll naming yes
    let (noWrapper, naming) := naming.wrapperId no
    let (noNodes, naming) := buildAll naming no
    let children := (wrap yesWrapper yesNodes).map (·.withBranch .onTrue)
      ++ (wrap noWrapper noNodes).map (·.withBranch .onFalse)
    (⟨id, .condition text, children, none, head.tags⟩, naming)
  | .loop head spec body =>
    let (id, naming) := naming.blockId head.id "loop"
    let (children, naming) := buildAll naming body
    (⟨id, .loop spec, children, none, head.tags⟩, naming)
  | .wait head spec =>
    let (id, naming) := naming.blockId head.id "wait"
    (⟨id, .wait spec, [], none, head.tags⟩, naming)

/-- The nodes of steps in their order. -/
def buildAll (naming : Naming) : List Step → List Node × Naming
  | [] => ([], naming)
  | step :: rest =>
    let (node, naming) := build naming step
    let (nodes, naming) := buildAll naming rest
    (node :: nodes, naming)

end

/-- The tree of a list of steps. -/
def tree (naming : Naming) (first : Step) (rest : List Step) : Node :=
  match rest with
  | [] => (build naming first).1
  | _ =>
    let (id, naming) := naming.forBlock "sequence"
    .make id .sequence (buildAll naming (first :: rest)).1

/-- Reads a list of steps as a tree, or finds all that is wrong with it: first the ids that are
given twice, then the faults of the steps. -/
def parse (steps : List Json) : Reading Node :=
  let ids := reservedAll steps
  match (repeats [] ids).map Fault.duplicateId, readAll "steps" 0 steps with
  | [], .ok (first :: rest) => .ok (tree (.reserving ids) first rest)
  | [], .ok [] => .fail (.unreadable "step list is empty")
  | duplicate :: more, .ok _ => .error ⟨duplicate, more⟩
  | duplicates, .error faults => .error (faults.after duplicates)

/-- Reads a tree from a list of steps, from an object with one, or from one step. -/
def parseJson (json : Json) : Reading Node :=
  match json with
  | .arr steps => parse steps
  | .obj members =>
    match Table.find? members "steps" with
    | some (.arr steps) => parse steps
    | _ => parse [.obj members]
  | _ => .fail (.unreadable "expected a step list")

/-- Reads a tree from a YAML text. -/
def parseYaml (text : String) : Reading Node :=
  match Yaml.value? text with
  | some json => parseJson json
  | none => .fail (.unreadable "malformed document")

end Stepwise.Step
