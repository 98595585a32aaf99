import Stepwise.Node.Basic

/-!
# Stages

What a tree does, as a list of stages one after another: the nodes of one stage may run at the
same time. Only nodes that do or decide something have a stage: tasks, waits and conditions. The
steps of a sequence come one after another, the children of a parallel block and the branches of
a condition side by side.
-/

namespace Stepwise.Plan

/-- Nodes that may run at the same time, by their ids. -/
abbrev Stage := List String

/-- Two lists of stages side by side: each stage joins the one at its place. -/
def beside : List Stage → List Stage → List Stage
  | [], right => right
  | left, [] => left
  | a :: left, b :: right => (a ++ b) :: beside left right

mutual

/-- The stages of a tree. -/
def stages (node : Node) : List Stage :=
  match node with
  | ⟨id, kind, children, _, _⟩ =>
    match kind with
    | .task _ => [[id]]
    | .wait _ => [[id]]
    | .sequence => stagesInTurn children
    | .loop _ => stagesInTurn children
    | .parallel _ => stagesSideBySide children
    | .condition _ => [id] :: stagesSideBySide children

/-- The stages of trees that run one after another. -/
def stagesInTurn : List Node → List Stage
  | [] => []
  | node :: rest => stages node ++ stagesInTurn rest

/-- The stages of trees that run side by side. -/
def stagesSideBySide : List Node → List Stage
  | [] => []
  | node :: rest => beside (stages node) (stagesSideBySide rest)

end

end Stepwise.Plan
