import Stepwise.Step.Field

/-!
# Reading steps

The reader goes on after a faulty step, so that all faults of a list are found at once; inside
one step it stops at the first field that is wrong. The path of a step tells the way to it:
`steps[2].then[0]`.
-/

namespace Stepwise.Step

theorem sizeOf_find? {members : Table Json} {name : String} {json : Json}
    (h : Table.find? members name = some json) : sizeOf json < sizeOf members := by
  induction members with
  | nil => simp at h
  | cons entry rest ih =>
    obtain ⟨k, v⟩ := entry
    simp only [Table.find?] at h
    split at h
    · cases h
      simp only [List.cons.sizeOf_spec, Prod.mk.sizeOf_spec]
      omega
    · have := ih h
      simp only [List.cons.sizeOf_spec, Prod.mk.sizeOf_spec]
      omega

theorem sizeOf_find?_obj {members inner : Table Json} {name : String}
    (h : Table.find? members name = some (.obj inner)) : sizeOf inner < sizeOf members := by
  have := sizeOf_find? h
  simp only [Json.obj.sizeOf_spec] at this
  omega

theorem sizeOf_find?_arr {members : Table Json} {items : List Json} {name : String}
    (h : Table.find? members name = some (.arr items)) : sizeOf items < sizeOf members := by
  have := sizeOf_find? h
  simp only [Json.arr.sizeOf_spec] at this
  omega

/-- The path of an item of a list. -/
def itemPath (path : String) (i : Nat) : String := path ++ "[" ++ toString i ++ "]"

mutual

/-- Reads a step. -/
def read (path : String) (json : Json) : Reading Step :=
  match json with
  | .obj members => do
    let keyword ← keyword path members
    let head ← head path members
    if keyword = "task" then return .task head (← taskSpec path members)
    else if keyword = "sequence" then
      return .sequence head (← readUnder path members "sequence")
    else if keyword = "parallel" then
      let spec ← parallelSpec path members
      return .parallel head spec (← readUnder path members "parallel")
    else if keyword = "if" then
      let condition ← branchCondition path members
      return .condition head condition (← readThen path members) (← readElse path members)
    else if keyword = "loop" then readLoop path members head
    else return .wait head (← waitSpec path members)
  | _ => refuse path "step must be a mapping"
termination_by (sizeOf json, 0)
decreasing_by
  all_goals
    apply Prod.Lex.left
    simp only [Json.obj.sizeOf_spec]
    omega

/-- Reads the steps under a keyword. -/
def readUnder (path : String) (members : Table Json) (name : String) : Reading (List Step) :=
  match h : Table.find? members name with
  | some json =>
    have := sizeOf_find? h
    readNested (path ++ "." ++ name) json
  | none => refuse (path ++ "." ++ name) "expected a list of steps"
termination_by (sizeOf members, 1)

/-- Reads a loop, whose fields may stand in an object of their own. -/
def readLoop (path : String) (members : Table Json) (head : StepHead) : Reading Step :=
  match h : Table.find? members "loop" with
  | some (.obj inner) => do
    let spec ← loopSpec path members inner
    have := sizeOf_find?_obj h
    return .loop head spec (← readBody path inner)
  | some (.str _) => do
    let spec ← loopSpec path members members
    return .loop head spec (← readBody path members)
  | _ => refuse path "loop must be a condition string or a mapping"
termination_by (sizeOf members, 2)

/-- Reads the body of a loop. -/
def readBody (path : String) (inner : Table Json) : Reading (List Step) :=
  match h : Table.find? inner "body" with
  | some json =>
    have := sizeOf_find? h
    readNested (path ++ ".body") json
  | none => refuse path "loop requires a body"
termination_by (sizeOf inner, 1)

/-- Reads the steps of a condition for true. -/
def readThen (path : String) (members : Table Json) : Reading (List Step) :=
  match h : Table.find? members "then" with
  | some json =>
    have := sizeOf_find? h
    readBranch (path ++ ".then") json
  | none => refuse path "condition requires a then branch"
termination_by (sizeOf members, 1)

/-- Reads the steps of a condition for false, if there are any. -/
def readElse (path : String) (members : Table Json) : Reading (List Step) :=
  match h : Table.find? members "else" with
  | none => .ok []
  | some .null => .ok []
  | some json =>
    have := sizeOf_find? h
    readBranch (path ++ ".else") json
termination_by (sizeOf members, 1)

/-- Reads the steps of a branch: a step, or a list of at least one. -/
def readBranch (path : String) (json : Json) : Reading (List Step) :=
  match json with
  | .arr [] => refuse path "branch is empty"
  | .arr items => readAll path 0 items
  | .obj members => do return [← read path (.obj members)]
  | _ => refuse path "branch must be a step or a list of steps"
termination_by (sizeOf json, 1)

/-- Reads the steps of a block: a step, or a list of any length. -/
def readNested (path : String) (json : Json) : Reading (List Step) :=
  match json with
  | .arr items => readAll path 0 items
  | .obj members => do return [← read (itemPath path 0) (.obj members)]
  | _ => refuse path "expected a list of steps"
termination_by (sizeOf json, 1)

/-- Reads all steps of a list, the first of which has the place `i`. -/
def readAll (path : String) (i : Nat) (items : List Json) : Reading (List Step) :=
  match items with
  | [] => .ok []
  | json :: rest => .cons (read (itemPath path i) json) (readAll path (i + 1) rest)
termination_by (sizeOf items, 0)

end

end Stepwise.Step
