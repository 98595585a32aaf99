import Stepwise.Condition.Parser

/-!
# Evaluating conditions

`evaluate` reads a condition and evaluates it in a scope. An `Evaluator` remembers the conditions
it has read, so a loop or a wait reads its own only once; what it answers does not depend on what
it remembers.
-/

namespace Stepwise.Condition

/-- Reads a condition and says whether it holds. -/
def evaluate (scope : Scope) (text : String) : Except Fault Bool :=
  (compile text).bind (Expr.holds scope)

/-- Whether a text is a condition that holds; faults count as false. -/
def succeeds (scope : Scope) (text : String) : Bool :=
  match evaluate scope text with
  | .ok answer => answer
  | .error _ => false

/-- The conditions that were read, by their text. -/
structure Evaluator where
  known : Table Expr

namespace Evaluator

/-- Remembers nothing yet. -/
def empty : Evaluator := ⟨[]⟩

/-- Says whether a condition holds, and remembers it if it could be read. -/
def evaluate (evaluator : Evaluator) (scope : Scope) (text : String) :
    Except Fault Bool × Evaluator :=
  match evaluator.known.find? text with
  | some e => (e.holds scope, evaluator)
  | none =>
    match compile text with
    | .ok e => (e.holds scope, ⟨evaluator.known.insert text e⟩)
    | .error fault => (.error fault, evaluator)

end Evaluator

end Stepwise.Condition
