import Stepwise.Json.Decode
import Stepwise.Node.Basic

/-!
# Trees as records

The JSON form of trees. What is absent is left out, and so are empty lists of children and empty
tags; everything else is always written. A kind is a record with its name under `type`.
-/

namespace Stepwise

/-- A member that is left out when there is no value. -/
def optionalMember {α : Type} (name : String) (write : α → Json) (value : Option α) :
    List (String × Json) :=
  (value.map (fun v => (name, write v))).toList

/-- A list of texts. -/
def Json.ofTexts (texts : List String) : Json := .arr (texts.map .str)

/-- An integer of thirty-two bits as a value. -/
def Json.ofUInt32 (n : UInt32) : Json := .int n.toNat

/-- An integer of sixty-four bits as a value. -/
def Json.ofUInt64 (n : UInt64) : Json := .int n.toNat

namespace TaskSpec

/-- What is written of a task. What is not specified is left out. -/
def members (spec : TaskSpec) : List (String × Json) :=
  [("task", .str spec.task), ("tools", .ofTexts spec.tools), ("parameters", .obj spec.parameters),
    ("retry_count", .ofUInt32 spec.retries)]
    ++ optionalMember "timeout" Json.ofDuration spec.timeout
    ++ optionalMember "description" Json.str spec.description

/-- A task from what is written of it. What may be left out has its default. -/
def ofFields? (fields : Json.Fields) : Option TaskSpec := do
  let task ← fields.required? "task" Json.str?
  let tools ← fields.defaulted? "tools" (Json.list? Json.str?) []
  let parameters ← fields.defaulted? "parameters" Json.table? []
  let retries ← fields.defaulted? "retry_count" Json.uint32? 0
  let timeout ← fields.optional? "timeout" Json.duration?
  let description ← fields.optional? "description" Json.str?
  return ⟨task, tools, parameters, retries, timeout, description⟩

end TaskSpec

namespace ParallelSpec

/-- What is written of a parallel block. -/
def members (spec : ParallelSpec) : List (String × Json) :=
  optionalMember "max_concurrency" Json.ofUInt64 spec.maxConcurrency
    ++ [("fail_fast", .bool spec.failFast), ("wait_for_all", .bool spec.waitForAll)]

/-- A parallel block from what is written of it. -/
def ofFields? (fields : Json.Fields) : Option ParallelSpec := do
  let maxConcurrency ← fields.optional? "max_concurrency" Json.uint64?
  let failFast ← fields.required? "fail_fast" Json.bool?
  let waitForAll ← fields.required? "wait_for_all" Json.bool?
  return ⟨maxConcurrency, failFast, waitForAll⟩

end ParallelSpec

namespace LoopSpec

/-- What is written of a loop. -/
def members (spec : LoopSpec) : List (String × Json) :=
  [("condition", .str spec.condition), ("break_on_error", .bool spec.breakOnError)]
    ++ optionalMember "max_iterations" Json.ofUInt64 spec.maxIterations

/-- A loop from what is written of it. -/
def ofFields? (fields : Json.Fields) : Option LoopSpec := do
  let condition ← fields.required? "condition" Json.str?
  let maxIterations ← fields.optional? "max_iterations" Json.uint64?
  let breakOnError ← fields.required? "break_on_error" Json.bool?
  return ⟨condition, maxIterations, breakOnError⟩

end LoopSpec

namespace WaitSpec

/-- What is written of a wait. -/
def members (spec : WaitSpec) : List (String × Json) :=
  ("condition", .str spec.condition)
    :: optionalMember "timeout" Json.ofDuration spec.timeout
    ++ optionalMember "poll_interval" Json.ofDuration spec.pollInterval

/-- A wait from what is written of it. -/
def ofFields? (fields : Json.Fields) : Option WaitSpec := do
  let condition ← fields.required? "condition" Json.str?
  let timeout ← fields.optional? "timeout" Json.duration?
  let pollInterval ← fields.optional? "poll_interval" Json.duration?
  return ⟨condition, timeout, pollInterval⟩

end WaitSpec

namespace Kind

/-- What is written of a kind, but for its name. -/
def members : Kind → List (String × Json)
  | .task spec => spec.members
  | .sequence => []
  | .parallel spec => spec.members
  | .condition text => [("condition", .str text)]
  | .loop spec => spec.members
  | .wait spec => spec.members

/-- The record of a kind: its name among what it specifies. -/
def toJson (kind : Kind) : Json := .ofMembers (("type", .str kind.name) :: kind.members)

/-- The names of the fields of a kind, in the order in which an array gives them. -/
def fieldNames : String → Option (List String)
  | "task" => some ["task", "tools", "parameters", "retry_count", "timeout", "description"]
  | "sequence" => some []
  | "parallel" => some ["max_concurrency", "fail_fast", "wait_for_all"]
  | "condition" => some ["condition"]
  | "loop" => some ["condition", "max_iterations", "break_on_error"]
  | "wait" => some ["condition", "timeout", "poll_interval"]
  | _ => none

/-- Reads the fields of the kind of a name. -/
def ofFields? (name : String) (fields : Json.Fields) : Option Kind :=
  match name with
  | "task" => (TaskSpec.ofFields? fields).map .task
  | "sequence" => some .sequence
  | "parallel" => (ParallelSpec.ofFields? fields).map .parallel
  | "condition" => (fields.required? "condition" Json.str?).map .condition
  | "loop" => (LoopSpec.ofFields? fields).map .loop
  | "wait" => (WaitSpec.ofFields? fields).map .wait
  | _ => none

/-- Reads a kind: an object with its name under `type`, or an array of the name and the fields. -/
def ofJson? (json : Json) : Option Kind := do
  match json with
  | .obj members =>
    let name ← (Table.find? members "type").bind Json.str?
    ofFields? name ⟨members, false⟩
  | .arr (tag :: items) =>
    let name ← tag.str?
    let fields ← (Json.arr items).fields? (← fieldNames name)
    ofFields? name fields
  | _ => none

end Kind

namespace Branch

/-- The name of a branch, as it is written. -/
def name : Branch → String
  | .onTrue => "then"
  | .onFalse => "else"

/-- The branch of a name. -/
def ofName? : String → Option Branch
  | "then" => some .onTrue
  | "else" => some .onFalse
  | _ => none

end Branch

/-- The branch and the tags of a node as a record. -/
def Node.metadata (branch : Option Branch) (tags : Table Json) : Json :=
  .ofMembers (optionalMember "branch" (fun b => .str b.name) branch
    ++ (if tags.isEmpty then [] else [("tags", .obj tags)]))

namespace Node

mutual

/-- The record of a tree. -/
def toJson (node : Node) : Json :=
  match node with
  | ⟨id, kind, children, branch, tags⟩ =>
    .ofMembers ([("id", .str id), ("kind", kind.toJson), ("metadata", metadata branch tags)]
      ++ (if children.isEmpty then [] else [("children", .arr (toJsonAll children))]))

/-- The records of some trees. -/
def toJsonAll : List Node → List Json
  | [] => []
  | node :: rest => toJson node :: toJsonAll rest

end

/-- Reads the branch and the tags of a node. -/
def metadata? (json : Json) : Option (Option Branch × Table Json) := do
  let fields ← json.fields? ["branch", "tags"]
  let branch ← fields.optional? "branch" (fun j => j.name?.bind Branch.ofName?)
  let tags ← fields.defaulted? "tags" Json.table? []
  return (branch, tags)

/-- The members of a record of a tree, by name or by place. -/
structure Parts where
  id : String
  kind : Kind
  branch : Option Branch
  tags : Table Json

/-- Reads all of a record but its children. -/
def parts? (fields : Json.Fields) : Option Parts := do
  let id ← fields.required? "id" Json.str?
  let kind ← fields.required? "kind" Kind.ofJson?
  let (branch, tags) ← fields.defaulted? "metadata" metadata? (none, [])
  return ⟨id, kind, branch, tags⟩

/-- The names of the members of a record, in the order in which an array gives them. -/
def memberNames : List String := ["id", "kind", "children", "metadata"]

mutual

/-- Reads the record of a tree. -/
def ofJson? (json : Json) : Option Node :=
  match json with
  | .obj members => do
    let parts ← parts? ⟨members, false⟩
    let children ← childrenOfMembers? members
    return ⟨parts.id, parts.kind, children, parts.branch, parts.tags⟩
  | .arr items => do
    let parts ← parts? (← (Json.arr items).fields? memberNames)
    let children ← childrenAt? 2 items
    return ⟨parts.id, parts.kind, children, parts.branch, parts.tags⟩
  | _ => none

/-- Reads the children among the members of an object. -/
def childrenOfMembers? : List (String × Json) → Option (List Node)
  | [] => some []
  | (name, json) :: rest => if name = "children" then childrenOf? json else childrenOfMembers? rest

/-- Reads the children at a place of an array. -/
def childrenAt? : Nat → List Json → Option (List Node)
  | _, [] => some []
  | 0, json :: _ => childrenOf? json
  | n + 1, _ :: rest => childrenAt? n rest

/-- The children of a node from their records. -/
def childrenOf? : Json → Option (List Node)
  | .arr items => ofJsonAll? items
  | _ => none

/-- Trees from their records, if all of them can be read. -/
def ofJsonAll? : List Json → Option (List Node)
  | [] => some []
  | json :: rest => do return (← ofJson? json) :: (← ofJsonAll? rest)

end

end Node

end Stepwise
