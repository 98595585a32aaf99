import Stepwise.Coordinator.Basic
import Stepwise.Node.Record
import Stepwise.Toml.Reader
import Stepwise.Toml.Writer

/-!
# Settings

What a settings file and the environment may say about the coordinator, the runs, the limits and
the known names. Nothing has to be said; `Settings.policy` fills the gaps with the standard
values.
-/

namespace Stepwise

/-- What is said about the coordinator. -/
structure Settings.Coordination where
  maxConcurrent : Option UInt64
  timeoutSecs : Option Float
  maxRetries : Option UInt32
  backoffMillis : Option UInt64
deriving BEq

/-- What is said about runs. -/
structure Settings.Running where
  retryDelayMillis : Option UInt64
  pollIntervalMillis : Option UInt64
  waitTimeoutSecs : Option Float
  maxIterations : Option UInt64
deriving BEq

/-- What is said about limits. -/
structure Settings.Bounds where
  parallelTasks : Option UInt64
  depth : Option UInt64
  loopIterations : Option UInt64
  taskRetries : Option UInt32
deriving BEq

/-- Settings. They are the same as others if all that they say is; a double that is no number is
never the same. -/
structure Settings where
  coordination : Settings.Coordination
  running : Settings.Running
  bounds : Settings.Bounds
  catalog : Catalog
deriving BEq

namespace Settings

/-- No setting of the coordinator is given. -/
def Coordination.empty : Coordination := ⟨none, none, none, none⟩

/-- No setting of the runs is given. -/
def Running.empty : Running := ⟨none, none, none, none⟩

/-- No bound is given. -/
def Bounds.empty : Bounds := ⟨none, none, none, none⟩

/-- Settings that say nothing. -/
def empty : Settings := ⟨.empty, .empty, .empty, .unrestricted⟩

/-! ### Records -/

/-- The settings of the coordinator that are given, and no others. -/
def Coordination.ofJson? (json : Json) : Option Coordination := do
  let fields ← json.fields?
    ["max_concurrent_workflows", "default_timeout_secs", "max_retries", "retry_backoff_base_ms"]
  return ⟨← fields.absent? "max_concurrent_workflows" Json.uint64?,
    ← fields.absent? "default_timeout_secs" Json.number?,
    ← fields.absent? "max_retries" Json.uint32?,
    ← fields.absent? "retry_backoff_base_ms" Json.uint64?⟩

/-- The settings of the runs that are given, and no others. -/
def Running.ofJson? (json : Json) : Option Running := do
  let fields ← json.fields?
    ["task_retry_delay_ms", "wait_poll_interval_ms", "wait_timeout_secs", "default_max_iterations"]
  return ⟨← fields.absent? "task_retry_delay_ms" Json.uint64?,
    ← fields.absent? "wait_poll_interval_ms" Json.uint64?,
    ← fields.absent? "wait_timeout_secs" Json.number?,
    ← fields.absent? "default_max_iterations" Json.uint64?⟩

/-- The bounds that are given, and no others. -/
def Bounds.ofJson? (json : Json) : Option Bounds := do
  let fields ← json.fields?
    ["max_parallel_tasks", "max_workflow_depth", "max_loop_iterations", "max_task_retries"]
  return ⟨← fields.absent? "max_parallel_tasks" Json.uint64?,
    ← fields.absent? "max_workflow_depth" Json.uint64?,
    ← fields.absent? "max_loop_iterations" Json.uint64?,
    ← fields.absent? "max_task_retries" Json.uint32?⟩

/-- The tasks and tools that are given, if they are restricted at all. -/
def catalogOfJson? (json : Json) : Option Catalog := do
  let fields ← json.fields? ["tasks", "tools"]
  return ⟨← fields.absent? "tasks" (Json.list? Json.str?), ← fields.absent? "tools" (Json.list? Json.str?)⟩

/-- Reads the record of settings; a section that is missing says nothing. -/
def ofJson? (json : Json) : Option Settings := do
  let fields ← json.fields? ["orchestrator", "executor", "limits", "catalog"]
  return ⟨← fields.defaulted? "orchestrator" Coordination.ofJson? .empty,
    ← fields.defaulted? "executor" Running.ofJson? .empty,
    ← fields.defaulted? "limits" Bounds.ofJson? .empty,
    ← fields.defaulted? "catalog" catalogOfJson? .unrestricted⟩

/-- The record of settings. -/
def toJson (settings : Settings) : Json :=
  let size (n : Option UInt64) : Json := .ofOption (fun n => .ofNat n.toNat) n
  let count (n : Option UInt32) : Json := .ofOption (fun n => .ofNat n.toNat) n
  let double (x : Option Float) : Json := .ofOption .ofFloat x
  let c := settings.coordination
  let r := settings.running
  let b := settings.bounds
  .ofMembers
    [("orchestrator", .ofMembers
        [("max_concurrent_workflows", size c.maxConcurrent),
          ("default_timeout_secs", double c.timeoutSecs),
          ("max_retries", count c.maxRetries),
          ("retry_backoff_base_ms", size c.backoffMillis)]),
      ("executor", .ofMembers
        [("task_retry_delay_ms", size r.retryDelayMillis),
          ("wait_poll_interval_ms", size r.pollIntervalMillis),
          ("wait_timeout_secs", double r.waitTimeoutSecs),
          ("default_max_iterations", size r.maxIterations)]),
      ("limits", .ofMembers
        [("max_parallel_tasks", size b.parallelTasks),
          ("max_workflow_depth", size b.depth),
          ("max_loop_iterations", size b.loopIterations),
          ("max_task_retries", count b.taskRetries)]),
      ("catalog", .ofMembers
        [("tasks", .ofOption .ofTexts settings.catalog.tasks),
          ("tools", .ofOption .ofTexts settings.catalog.tools)])]

/-! ### Files -/

/-- Reads a settings file. -/
def ofToml (text : String) : Except Fault Settings :=
  match (Toml.read? text).bind ofJson? with
  | some settings => .ok settings
  | none => .error (.badConfig "Failed to parse config file: malformed settings")

/-- A line for every entry that has a value, or nothing if one of them cannot be written. -/
def written (entries : List (String × Option (Option String))) : Option (List (String × String)) :=
  entries.foldr (fun entry lines =>
    match entry, lines with
    | (_, none), lines => lines
    | (key, some (some value)), some lines => some ((key, value) :: lines)
    | _, _ => none) (some [])

/-- The text of a settings file, with all four tables. Integers above 63 bits cannot be
written. -/
def toToml? (settings : Settings) : Option String := do
  let size (n : Option UInt64) : Option (Option String) := n.map (fun n => Toml.natural? n.toNat)
  let count (n : Option UInt32) : Option (Option String) := n.map (fun n => Toml.natural? n.toNat)
  let double (x : Option Float) : Option (Option String) := x.map (fun x => some (Toml.double x))
  let list (names : Names) : Option (Option String) := names.map (fun names => some (Toml.list names))
  let c := settings.coordination
  let r := settings.running
  let b := settings.bounds
  let coordination ← written
    [("max_concurrent_workflows", size c.maxConcurrent), ("default_timeout_secs", double c.timeoutSecs),
      ("max_retries", count c.maxRetries), ("retry_backoff_base_ms", size c.backoffMillis)]
  let running ← written
    [("task_retry_delay_ms", size r.retryDelayMillis),
      ("wait_poll_interval_ms", size r.pollIntervalMillis),
      ("wait_timeout_secs", double r.waitTimeoutSecs), ("default_max_iterations", size r.maxIterations)]
  let bounds ← written
    [("max_parallel_tasks", size b.parallelTasks), ("max_workflow_depth", size b.depth),
      ("max_loop_iterations", size b.loopIterations), ("max_task_retries", count b.taskRetries)]
  let catalog ← written
    [("tasks", list settings.catalog.tasks), ("tools", list settings.catalog.tools)]
  return "\n".intercalate
    [Toml.table "orchestrator" coordination, Toml.table "executor" running,
      Toml.table "limits" bounds, Toml.table "catalog" catalog]

/-- Why settings cannot be written. -/
def unwritable : String := "out-of-range value for u64 type"

/-- The text of a settings file. -/
def toToml (settings : Settings) : Except Fault String :=
  match settings.toToml? with
  | some text => .ok text
  | none => .error (.badConfig ("Failed to serialize config: " ++ unwritable))

/-! ### The environment -/

/-- Reads a natural number below a bound, perhaps with a plus sign. -/
def natBelow? (bound : Nat) (text : String) : Option Nat :=
  let digits := match text.toList with
    | '+' :: rest => rest
    | cs => cs
  let n := Text.digitsValue digits
  if digits.isEmpty ∨ ¬ digits.all Text.isDigit ∨ bound ≤ n then none else some n

/-- The settings with what variables of the environment say instead. A variable that cannot be
read says nothing. -/
def withEnvironment (settings : Settings) (env : Table String) : Settings :=
  let read {α : Type} (name : String) (meaning : String → Option α) (old : Option α) : Option α :=
    match (env.find? name).bind meaning with
    | some new => some new
    | none => old
  let size (text : String) : Option UInt64 := (natBelow? UInt64.size text).map UInt64.ofNat
  let count (text : String) : Option UInt32 := (natBelow? UInt32.size text).map UInt32.ofNat
  let c := settings.coordination
  let r := settings.running
  { settings with
    coordination := { c with
      maxConcurrent := read "ORCA_MAX_CONCURRENT_WORKFLOWS" size c.maxConcurrent
      maxRetries := read "ORCA_MAX_RETRIES" count c.maxRetries
      timeoutSecs := read "ORCA_WORKFLOW_TIMEOUT_SECS" Decimal.read? c.timeoutSecs }
    running := { r with
      retryDelayMillis := read "ORCA_TASK_RETRY_DELAY_MS" size r.retryDelayMillis } }

/-! ### What settings mean -/

/-- A number of seconds as a duration; the fault names its key. -/
def duration (key : String) (seconds : Float) : Except Fault Duration :=
  match Duration.ofSeconds seconds with
  | .ok duration => .ok duration
  | .error problem => .error (.badConfig
      (key ++ " = " ++ Decimal.plain.render seconds ++ " is not a valid duration: " ++ problem.message))

/-- The values for runs. -/
def defaults (settings : Settings) : Except Fault Defaults := do
  let standard := Defaults.standard
  let r := settings.running
  let millis (n : Option UInt64) (standard : Duration) : Duration :=
    (n.map (fun n => Duration.ofMillis n.toNat)).getD standard
  let waitTimeout ← match r.waitTimeoutSecs with
    | some seconds => duration "executor.wait_timeout_secs" seconds
    | none => pure standard.waitTimeout
  return {
    retryDelay := millis r.retryDelayMillis standard.retryDelay
    pollInterval := millis r.pollIntervalMillis standard.pollInterval
    waitTimeout
    maxIterations := r.maxIterations.getD standard.maxIterations }

/-- The limits. -/
def limits (settings : Settings) : Limits :=
  let standard := Limits.standard
  let b := settings.bounds
  { parallelTasks := b.parallelTasks.getD standard.parallelTasks
    depth := b.depth.getD standard.depth
    loopIterations := b.loopIterations.getD standard.loopIterations
    taskRetries := b.taskRetries.getD standard.taskRetries
    taskEstimate := standard.taskEstimate }

/-- The policy of a coordinator. A timeout that is not above zero is none. -/
def policy (settings : Settings) : Except Fault Policy := do
  let standard := Policy.standard
  let c := settings.coordination
  let timeout ← match c.timeoutSecs.filter (0 < ·) with
    | some seconds => some <$> duration "orchestrator.default_timeout_secs" seconds
    | none => pure standard.timeout
  return {
    maxConcurrent := c.maxConcurrent.getD standard.maxConcurrent
    timeout
    maxRetries := c.maxRetries.getD standard.maxRetries
    backoff := (c.backoffMillis.map (fun n => Duration.ofMillis n.toNat)).getD standard.backoff
    limits := settings.limits
    catalog := settings.catalog
    defaults := ← settings.defaults }

end Settings

end Stepwise
