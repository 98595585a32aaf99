import Stepwise.Step.Reader

/-!
# Ids of steps

Ids that steps give themselves are reserved before any id is made up, wherever in the list they
stand; a second step with the same id is a fault. A task without an id is named after what it
calls, a block after its kind with a number, and an id that is taken makes way for the next
number.
-/

namespace Stepwise.Step

mutual

/-- The ids that a step and the steps inside it give themselves, from the outside in. Steps stand
under the keywords of blocks, whether or not they are the keyword of the step. -/
def reserved (json : Json) : List String :=
  match json with
  | .obj members =>
    ((Table.find? members "id").bind Json.str?).toList
      ++ reservedUnder members "sequence" ++ reservedUnder members "parallel"
      ++ reservedUnder members "then" ++ reservedUnder members "else"
      ++ reservedUnder members "body"
      ++ reservedBody members "loop" ++ reservedBody members "wait"
  | _ => []
termination_by (sizeOf json, 0)
decreasing_by
  all_goals
    apply Prod.Lex.left
    simp only [Json.obj.sizeOf_spec]
    omega

/-- The ids of the steps under a keyword. -/
def reservedUnder (members : Table Json) (name : String) : List String :=
  match h : Table.find? members name with
  | some (.arr items) =>
    have := sizeOf_find?_arr h
    reservedAll items
  | some (.obj inner) =>
    have : 1 + sizeOf inner < sizeOf members := by simpa using sizeOf_find? h
    reserved (.obj inner)
  | _ => []
termination_by (sizeOf members, 1)

/-- The ids of the steps in the body of the object under a keyword. -/
def reservedBody (members : Table Json) (name : String) : List String :=
  match h : Table.find? members name with
  | some (.obj inner) =>
    have := sizeOf_find?_obj h
    reservedUnder inner "body"
  | _ => []
termination_by (sizeOf members, 2)

/-- The ids that are given in some steps. -/
def reservedAll (items : List Json) : List String :=
  match items with
  | [] => []
  | json :: rest => reserved json ++ reservedAll rest
termination_by (sizeOf items, 0)

end

/-- The ids that stand in a list for a second time or more. -/
def repeats (seen : List String) : List String → List String
  | [] => []
  | id :: rest => if seen.contains id then id :: repeats seen rest else repeats (id :: seen) rest

/-- The first of the candidates from `n` on that is not used, if one of the first `steps` is not;
else the one after them. -/
def firstFree (used : List String) (candidate : Nat → String) (n : Nat) : (steps : Nat) → Nat
  | 0 => n
  | steps + 1 => if used.contains (candidate n) then firstFree used candidate (n + 1) steps else n

/-- The ids in use, and the last number given to each kind of block. -/
structure Naming where
  used : List String
  counters : Table Nat

/-- The candidates for the id of a task: its base, then the base with the numbers from 2 on. -/
def taskCandidate (base : String) (n : Nat) : String :=
  if n = 1 then base else base ++ "_" ++ toString n

/-- The candidates for the id of a block. -/
def blockCandidate (kind : String) (n : Nat) : String := kind ++ "_" ++ toString n

/-- The id that stands for the name of a task: other characters than those of ids become `_`. -/
def idBase (name : String) : String :=
  let text := name.toList.map (fun c => if Text.isNameChar c then c else '_')
  match text with
  | [] => "task_"
  | c :: _ =>
    if Text.isLetter c || c == '_' then String.ofList text else "task_" ++ String.ofList text

namespace Naming

/-- The naming in which some ids are reserved. -/
def reserving (ids : List String) : Naming := ⟨ids, []⟩

/-- The last number given to a kind of block. -/
def counter (naming : Naming) (kind : String) : Nat := (naming.counters.find? kind).getD 0

/-- Makes up the id of a task. -/
def forTask (naming : Naming) (name : String) : String × Naming :=
  let candidate := taskCandidate (idBase name)
  let id := candidate (firstFree naming.used candidate 1 naming.used.length)
  (id, { naming with used := id :: naming.used })

/-- Makes up the id of a block. -/
def forBlock (naming : Naming) (kind : String) : String × Naming :=
  let candidate := blockCandidate kind
  let n := firstFree naming.used candidate (naming.counter kind + 1) naming.used.length
  (candidate n, ⟨candidate n :: naming.used, naming.counters.insert kind n⟩)

/-- The id that a task gives itself, or a new one. -/
def taskId (naming : Naming) (own : Option String) (name : String) : String × Naming :=
  match own with
  | some id => (id, naming)
  | none => naming.forTask name

/-- The id that a block gives itself, or a new one. -/
def blockId (naming : Naming) (own : Option String) (kind : String) : String × Naming :=
  match own with
  | some id => (id, naming)
  | none => naming.forBlock kind

/-- An id for the sequence around several steps; one step needs none. -/
def wrapperId (naming : Naming) (steps : List Step) : Option String × Naming :=
  match steps with
  | _ :: _ :: _ =>
    let (id, naming) := naming.forBlock "sequence"
    (some id, naming)
  | _ => (none, naming)

end Naming

end Stepwise.Step
