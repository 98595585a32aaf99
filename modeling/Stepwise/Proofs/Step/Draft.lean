import Stepwise.Step.Tree

/-!
# Drafting trees

A tree may also be drafted in one go, with ids given while the steps are read. A part of drafting
that gives up says so with nothing but `none`; its faults are on a record that all parts share. By
its form alone such a draft could end without a tree and without a fault, or with both.
-/

namespace Stepwise.Step

/-- The ids in use, and the faults on record. -/
structure Draft where
  naming : Naming
  faults : List Fault

/-- Some ids are reserved, and those among them that are given twice are on record. -/
def Draft.reserving (ids : List String) : Draft :=
  ⟨.reserving ids, (repeats [] ids).map .duplicateId⟩

/-- A part of drafting. It may give up; the ids it has given and the faults it has found remain. -/
def Drafting (α : Type) := Draft → Option α × Draft

namespace Drafting

variable {α β : Type}

instance : Monad Drafting where
  pure a := fun draft => (some a, draft)
  bind part next := fun draft =>
    match part draft with
    | (some a, draft) => next a draft
    | (none, draft) => (none, draft)

/-- Takes what was read, or puts the faults on record and gives up. -/
def take (reading : Reading α) : Drafting α := fun draft =>
  match reading with
  | .ok a => (some a, draft)
  | .error found => (none, { draft with faults := draft.faults ++ found.toList })

/-- Gives an id. -/
def name (give : Naming → String × Naming) : Drafting String := fun draft =>
  let (id, naming) := give draft.naming
  (some id, { draft with naming })

/-- Puts something in front of a list. The list is drafted even if the front was given up. -/
def cons (head : Drafting α) (tail : Drafting (List α)) : Drafting (List α) := fun draft =>
  let (front, draft) := head draft
  let (back, draft) := tail draft
  match front, back with
  | some a, some rest => (some (a :: rest), draft)
  | _, _ => (none, draft)

end Drafting

open Drafting (take name)

/-- Drafts a loop but for its body. The id is given once there is a condition. -/
def draftLoopFields (path : String) (members inner : Table Json) (head : StepHead) :
    Drafting (String × LoopSpec) := do
  let condition ← take (blockCondition path members inner "loop")
  let id ← name (·.blockId head.id "loop")
  let maxIterations ← take (size path inner "max_iterations")
  let breakOnError ← take (flag path inner "break_on_error" true)
  return (id, ⟨condition, maxIterations, breakOnError⟩)

mutual

/-- Drafts the node of a step. -/
def draft (path : String) (json : Json) : Drafting Node :=
  match json with
  | .obj members => do
    let keyword ← take (keyword path members)
    let head ← take (head path members)
    if keyword = "task" then
      let spec ← take (taskSpec path members)
      let id ← name (·.taskId head.id spec.task)
      return ⟨id, .task spec, [], none, head.tags⟩
    else if keyword = "sequence" then
      let id ← name (·.blockId head.id "sequence")
      let children ← draftUnder path members "sequence"
      return ⟨id, .sequence, children, none, head.tags⟩
    else if keyword = "parallel" then
      let id ← name (·.blockId head.id "parallel")
      let spec ← take (parallelSpec path members)
      let children ← draftUnder path members "parallel"
      return ⟨id, .parallel spec, children, none, head.tags⟩
    else if keyword = "if" then
      let condition ← take (branchCondition path members)
      let id ← name (·.blockId head.id "condition")
      let yes ← draftThen path members
      let no ← draftElse path members
      let children := yes.withBranch .onTrue :: no.toList.map (·.withBranch .onFalse)
      return ⟨id, .condition condition, children, none, head.tags⟩
    else if keyword = "loop" then draftLoop path members head
    else
      let inner ← take (block path members "wait")
      let condition ← take (blockCondition path members inner "wait")
      let id ← name (·.blockId head.id "wait")
      let timeout ← take (duration path inner "timeout")
      let pollInterval ← take (duration path inner "poll_interval")
      return ⟨id, .wait ⟨condition, timeout, pollInterval⟩, [], none, head.tags⟩
  | _ => take (refuse path "step must be a mapping")
termination_by (sizeOf json, 0)
decreasing_by
  all_goals
    apply Prod.Lex.left
    simp only [Json.obj.sizeOf_spec]
    omega

/-- Drafts the steps under a keyword. -/
def draftUnder (path : String) (members : Table Json) (name : String) : Drafting (List Node) :=
  match h : Table.find? members name with
  | some json =>
    have := sizeOf_find? h
    draftNested (path ++ "." ++ name) json
  | none => take (refuse (path ++ "." ++ name) "expected a list of steps")
termination_by (sizeOf members, 1)

/-- Drafts a loop, whose fields may stand in an object of their own. -/
def draftLoop (path : String) (members : Table Json) (head : StepHead) : Drafting Node :=
  match h : Table.find? members "loop" with
  | some (.obj inner) => do
    let (id, spec) ← draftLoopFields path members inner head
    have := sizeOf_find?_obj h
    let children ← draftBody path inner
    return ⟨id, .loop spec, children, none, head.tags⟩
  | some (.str _) => do
    let (id, spec) ← draftLoopFields path members members head
    let children ← draftBody path members
    return ⟨id, .loop spec, children, none, head.tags⟩
  | _ => take (refuse path "loop must be a condition string or a mapping")
termination_by (sizeOf members, 2)

/-- Drafts the body of a loop. -/
def draftBody (path : String) (inner : Table Json) : Drafting (List Node) :=
  match h : Table.find? inner "body" with
  | some json =>
    have := sizeOf_find? h
    draftNested (path ++ ".body") json
  | none => take (refuse path "loop requires a body")
termination_by (sizeOf inner, 1)

/-- Drafts the branch of a condition for true. -/
def draftThen (path : String) (members : Table Json) : Drafting Node :=
  match h : Table.find? members "then" with
  | some json =>
    have := sizeOf_find? h
    draftBranch (path ++ ".then") json
  | none => take (refuse path "condition requires a then branch")
termination_by (sizeOf members, 1)

/-- Drafts the branch of a condition for false, if there is one. -/
def draftElse (path : String) (members : Table Json) : Drafting (Option Node) :=
  match h : Table.find? members "else" with
  | none => return none
  | some .null => return none
  | some json => do
    have := sizeOf_find? h
    let node ← draftBranch (path ++ ".else") json
    return some node
termination_by (sizeOf members, 1)

/-- Drafts one node for a branch, with a sequence around several steps. -/
def draftBranch (path : String) (json : Json) : Drafting Node :=
  match json with
  | .arr [] => take (refuse path "branch is empty")
  | .arr [item] => draft (itemPath path 0) item
  | .arr items => do
    let id ← name (·.forBlock "sequence")
    let children ← draftAll path 0 items
    return .make id .sequence children
  | .obj members => draft path (.obj members)
  | _ => take (refuse path "branch must be a step or a list of steps")
termination_by (sizeOf json, 1)

/-- Drafts the steps of a block. -/
def draftNested (path : String) (json : Json) : Drafting (List Node) :=
  match json with
  | .arr items => draftAll path 0 items
  | .obj members => do
    let node ← draft (itemPath path 0) (.obj members)
    return [node]
  | _ => take (refuse path "expected a list of steps")
termination_by (sizeOf json, 1)

/-- Drafts all steps of a list, the first of which has the place `i`. -/
def draftAll (path : String) (i : Nat) (items : List Json) : Drafting (List Node) :=
  match items with
  | [] => return []
  | json :: rest => .cons (draft (itemPath path i) json) (draftAll path (i + 1) rest)
termination_by (sizeOf items, 0)

end

section

variable (path name : String) (members : Table Json)

theorem draftUnder_eq :
    draftUnder path members name =
      match Table.find? members name with
      | some json => draftNested (path ++ "." ++ name) json
      | none => take (refuse (path ++ "." ++ name) "expected a list of steps") := by
  rw [draftUnder]
  split <;> simp_all

theorem draftBody_eq :
    draftBody path members =
      match Table.find? members "body" with
      | some json => draftNested (path ++ ".body") json
      | none => take (refuse path "loop requires a body") := by
  rw [draftBody]
  split <;> simp_all

theorem draftThen_eq :
    draftThen path members =
      match Table.find? members "then" with
      | some json => draftBranch (path ++ ".then") json
      | none => take (refuse path "condition requires a then branch") := by
  rw [draftThen]
  split <;> simp_all

theorem draftElse_eq :
    draftElse path members =
      match Table.find? members "else" with
      | none => return none
      | some .null => return none
      | some json => do return some (← draftBranch (path ++ ".else") json) := by
  rw [draftElse]
  split <;> simp_all

theorem draftLoop_eq (head : StepHead) :
    draftLoop path members head =
      match Table.find? members "loop" with
      | some (.obj inner) => do
        let (id, spec) ← draftLoopFields path members inner head
        let children ← draftBody path inner
        return ⟨id, .loop spec, children, none, head.tags⟩
      | some (.str _) => do
        let (id, spec) ← draftLoopFields path members members head
        let children ← draftBody path members
        return ⟨id, .loop spec, children, none, head.tags⟩
      | _ => take (refuse path "loop must be a condition string or a mapping") := by
  rw [draftLoop]
  split <;> simp_all

end

/-- Drafts the tree of a list of steps. -/
def draftTree (steps : List Json) : Drafting Node :=
  match steps with
  | [step] => draft (itemPath "steps" 0) step
  | _ => do
    let id ← name (·.forBlock "sequence")
    let children ← draftAll "steps" 0 steps
    return .make id .sequence children

/-- What a list of steps comes to, as it is told: whether all is well, the tree, and the faults. -/
structure Outcome where
  success : Bool
  root : Option Node
  faults : List Fault

/-- Drafts the tree of a list of steps. There is no tree if anything is on record at the end. -/
def outcome (steps : List Json) : Outcome :=
  if steps.isEmpty then ⟨false, none, [.unreadable "step list is empty"]⟩
  else
    match draftTree steps (.reserving (reservedAll steps)) with
    | (some root, ⟨_, []⟩) => ⟨true, some root, []⟩
    | (_, draft) => ⟨false, none, draft.faults⟩

end Stepwise.Step
