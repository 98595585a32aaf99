import Stepwise.Fault
import Stepwise.Node.Basic

/-!
# Steps

A step is what a workflow is written in: one keyword with its fields, and perhaps an id. Unlike
a node it need not have an id, and a list of steps stands wherever one step may.
-/

namespace Stepwise

/-- What every step may have: an id of its own, and tags. -/
structure StepHead where
  id : Option String
  tags : Table Json

/-- A step. The steps under a condition are those for true and those for false; either list is
taken as one branch, and no steps are no branch. -/
inductive Step where
  | task (head : StepHead) (spec : TaskSpec)
  | sequence (head : StepHead) (steps : List Step)
  | parallel (head : StepHead) (spec : ParallelSpec) (steps : List Step)
  | condition (head : StepHead) (condition : String) (yes no : List Step)
  | loop (head : StepHead) (spec : LoopSpec) (body : List Step)
  | wait (head : StepHead) (spec : WaitSpec)

/-- At least one fault. -/
structure Faults where
  first : Fault
  more : List Fault
deriving DecidableEq, Repr

namespace Faults

/-- The faults in their order; there is always one. -/
def toList (faults : Faults) : List Fault := faults.first :: faults.more

/-- The faults of one reading and then those of another. -/
def append (a b : Faults) : Faults := ⟨a.first, a.more ++ b.toList⟩

/-- All faults in front of which some more stand. -/
def after (front : List Fault) (faults : Faults) : Faults :=
  match front with
  | [] => faults
  | first :: rest => ⟨first, rest ++ faults.toList⟩

/-- One fault as it is, and several as one. -/
def collapse (faults : Faults) : Fault :=
  match faults.more with
  | [] => faults.first
  | _ => .unreadable ("; ".intercalate (faults.toList.map Fault.message))

end Faults

/-- A value, or all the faults that were found instead. -/
abbrev Reading (α : Type) := Except Faults α

namespace Reading

/-- A reading that ends with one fault. -/
def fail {α : Type} (fault : Fault) : Reading α := .error ⟨fault, []⟩

/-- A value in front of others; faults of both are kept. -/
def cons {α : Type} (head : Reading α) (tail : Reading (List α)) : Reading (List α) :=
  match head, tail with
  | .ok a, .ok rest => .ok (a :: rest)
  | .ok _, .error faults => .error faults
  | .error faults, .ok _ => .error faults
  | .error a, .error b => .error (a.append b)

end Reading

end Stepwise
