import Stepwise.Duration

/-!
# Limits

What a checker accepts at most, and the values used where a step gives none of its own.
-/

namespace Stepwise

/-- The greatest size of a list or number of rounds. -/
def greatestSize : UInt64 := 18446744073709551615

/-- The greatest number of retries. -/
def greatestRetries : UInt32 := 4294967295

/-- The limits of a workflow. -/
structure Limits where
  parallelTasks : UInt64
  depth : UInt64
  loopIterations : UInt64
  taskRetries : UInt32
  taskEstimate : Duration
deriving DecidableEq, Repr

namespace Limits

/-- The limits where none are asked for, which are also those of production. -/
def standard : Limits := ⟨20, 10, 1000, 5, .ofSecs 30⟩

/-- Narrow limits for tests. -/
def testing : Limits := ⟨4, 4, 50, 2, .ofSecs 1⟩

/-- No limits. -/
def unlimited : Limits := ⟨greatestSize, greatestSize, greatestSize, greatestRetries, .ofSecs 30⟩

/-- The limits of a name; an unknown name means the standard ones. -/
def ofName : String → Limits
  | "testing" => testing
  | "unlimited" => unlimited
  | _ => standard

end Limits

/-- The rounds of a loop that does not limit them. -/
def standardIterations : UInt64 := 100

/-- How long a wait without a timeout waits. -/
def standardWaitTimeout : Duration := .ofSecs 30

/-- The time between two looks at the condition of a wait. -/
def standardPollInterval : Duration := .ofSecs 1

/-- The time between two attempts of a task. -/
def standardRetryDelay : Duration := .ofSecs 1

end Stepwise
