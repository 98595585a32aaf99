import Stepwise.Json.Decode

/-!
# Issues

What a check of a tree finds. An error keeps a workflow from running; a warning and a remark
do not.
-/

namespace Stepwise

/-- How much an issue weighs. -/
inductive Severity where
  | error
  | warning
  | info
deriving DecidableEq, Repr

namespace Severity

/-- The name of a severity, as it is written. -/
def text : Severity → String
  | .error => "ERROR"
  | .warning => "WARNING"
  | .info => "INFO"

/-- The severity of a name. -/
def ofText? : String → Option Severity
  | "ERROR" => some .error
  | "WARNING" => some .warning
  | "INFO" => some .info
  | _ => none

end Severity

/-- One finding, about a node or about the tree as a whole. -/
structure Issue where
  severity : Severity
  message : String
  nodeId : Option String := none
  suggestion : Option String := none
deriving DecidableEq, Repr

namespace Issue

/-- Only errors make a tree invalid. -/
def isError (issue : Issue) : Bool := issue.severity = .error

/-- One line about an issue. -/
def line (issue : Issue) : String :=
  match issue.nodeId with
  | some id => issue.severity.text ++ " [" ++ id ++ "]: " ++ issue.message
  | none => issue.severity.text ++ ": " ++ issue.message

/-- The members of an issue that are there, in the order of its record. -/
def members (issue : Issue) : List (String × Json) :=
  [("severity", .str issue.severity.text), ("message", .str issue.message)]
    ++ (issue.nodeId.map (fun id => ("node_id", Json.str id))).toList
    ++ (issue.suggestion.map (fun s => ("suggestion", Json.str s))).toList

/-- An issue as a value. -/
def toJson (issue : Issue) : Json := .ofMembers issue.members

/-- An issue from its record, without fields that it does not have. -/
def ofJson? (json : Json) : Option Issue := do
  let fields ← json.fields? ["severity", "message", "node_id", "suggestion"]
  let severity ← fields.required? "severity" (fun j => j.name?.bind Severity.ofText?)
  let message ← fields.required? "message" Json.str?
  let nodeId ← fields.optional? "node_id" Json.str?
  let suggestion ← fields.optional? "suggestion" Json.str?
  return ⟨severity, message, nodeId, suggestion⟩

end Issue

end Stepwise
