import Stepwise.Limits
import Stepwise.Node.Basic

/-!
# Estimates

How long a tree may run: a task and a wait count with their timeouts, steps in turn add up, and
of branches side by side the longest counts. An estimate stops at the greatest duration.
-/

namespace Stepwise.Plan

/-- The rounds that an estimate counts for a loop. -/
def estimatedRounds (spec : LoopSpec) : Nat :=
  min (spec.maxIterations.getD standardIterations).toNat (UInt32.size - 1)

mutual

/-- The estimate of a tree, in which a task without a timeout counts as `task`. -/
def estimate (task : Duration) (node : Node) : Duration :=
  match node with
  | ⟨_, kind, children, _, _⟩ =>
    match kind with
    | .task spec => spec.timeout.getD task
    | .wait spec => spec.timeout.getD standardWaitTimeout
    | .sequence => estimateSum task children
    | .loop spec => (estimateSum task children).scale (estimatedRounds spec)
    | .parallel _ => estimateLongest task children
    | .condition _ => estimateLongest task children

/-- The estimate of trees in turn. -/
def estimateSum (task : Duration) : List Node → Duration
  | [] => .zero
  | node :: rest => (estimate task node).add (estimateSum task rest)

/-- The estimate of trees side by side. -/
def estimateLongest (task : Duration) : List Node → Duration
  | [] => .zero
  | node :: rest => (estimate task node).longer (estimateLongest task rest)

end

end Stepwise.Plan
