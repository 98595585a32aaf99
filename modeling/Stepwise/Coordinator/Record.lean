import Stepwise.Coordinator.Basic
import Stepwise.Node.Record

/-!
# Policies as records

How limits, catalogues, defaults and policies are written as JSON. A duration is written with its
seconds and its nanoseconds.
-/

namespace Stepwise

/-- The record of the limits. -/
def Limits.toJson (limits : Limits) : Json :=
  .ofMembers
    [("max_parallel_tasks", .ofUInt64 limits.parallelTasks),
      ("max_workflow_depth", .ofUInt64 limits.depth),
      ("max_loop_iterations", .ofUInt64 limits.loopIterations),
      ("max_task_retries", .ofUInt32 limits.taskRetries),
      ("default_task_estimate", .ofDuration limits.taskEstimate)]

/-- The record of a catalog, and of what it restricts. -/
def Catalog.toJson (catalog : Catalog) : Json :=
  .ofMembers
    [("restricts_tasks", .bool catalog.tasks.isSome),
      ("restricts_tools", .bool catalog.tools.isSome),
      ("tasks", .ofTexts (listed catalog.tasks)),
      ("tools", .ofTexts (listed catalog.tools))]

/-- The record of the values used by default. -/
def Defaults.toJson (defaults : Defaults) : Json :=
  .ofMembers
    [("task_retry_delay", .ofDuration defaults.retryDelay),
      ("default_poll_interval", .ofDuration defaults.pollInterval),
      ("default_wait_timeout", .ofDuration defaults.waitTimeout),
      ("default_max_iterations", .ofUInt64 defaults.maxIterations)]

/-- The record of a policy, with all that belongs to it. -/
def Policy.toJson (policy : Policy) : Json :=
  .ofMembers
    [("max_concurrent_workflows", .ofUInt64 policy.maxConcurrent),
      ("default_timeout", .ofOption .ofDuration policy.timeout),
      ("default_max_retries", .ofUInt32 policy.maxRetries),
      ("retry_backoff_base", .ofDuration policy.backoff),
      ("limits", policy.limits.toJson),
      ("catalog", policy.catalog.toJson),
      ("executor", policy.defaults.toJson)]

end Stepwise
