import Stepwise.Json.Basic

/-!
# Reference paths

A path names a value that a run can see: the first segment picks the results, the variables, or
one variable or result by name, and the others go down into it. `lookup` goes from a scope in
one step, `apply` from a value.
-/

namespace Stepwise

/-- One step of a path. -/
inductive Segment where
  | field (name : String)
  | index (n : Nat)
deriving DecidableEq, Repr

/-- The name that a segment gives, if it gives one. -/
def Segment.name? : Segment → Option String
  | .field name => some name
  | .index _ => none

/-- The values that a path can reach: variables, and results by the id of their node. -/
structure Scope where
  bindings : Table Json
  results : Table Json

namespace Path

/-- One step down from a value. -/
def child? (json : Json) : Segment → Option Json
  | .field name => json.member? name
  | .index n => json.item? n

/-- Goes down from a value. -/
def apply (json : Json) : List Segment → Option Json
  | [] => some json
  | segment :: rest => (child? json segment).bind (fun next => apply next rest)

/-- A table of values by name, seen as one object, and from there down. -/
def fromTable (table : Table Json) : List Segment → Option Json
  | [] => some (.obj table)
  | .field name :: rest => (Table.find? table name).bind (fun json => apply json rest)
  | .index _ :: _ => none

/-- The value at a path. A first name other than the reserved ones is a variable, or else a
result. -/
def lookup (scope : Scope) : List Segment → Option Json
  | .field "result" :: rest => fromTable scope.results rest
  | .field "results" :: rest => fromTable scope.results rest
  | .field "context" :: rest => fromTable scope.bindings rest
  | .field "variables" :: rest => fromTable scope.bindings rest
  | .field "vars" :: rest => fromTable scope.bindings rest
  | .field name :: rest =>
    ((Table.find? scope.bindings name).orElse (fun _ => Table.find? scope.results name)).bind
      (fun json => apply json rest)
  | _ => none

/-- The node whose result a path starts from, when the path names the results. -/
def referencedNode? : List Segment → Option String
  | .field "result" :: .field id :: _ => some id
  | .field "results" :: .field id :: _ => some id
  | _ => none

/-- Adds a path to the text of the segments before it. -/
def displayFrom (done : String) : List Segment → String
  | [] => done
  | .field name :: rest => displayFrom (if done.isEmpty then name else done ++ "." ++ name) rest
  | .index n :: rest => displayFrom (done ++ "[" ++ toString n ++ "]") rest

/-- The path as messages show it. -/
def display (path : List Segment) : String := displayFrom "" path

theorem apply_append (json : Json) (p q : List Segment) :
    apply json (p ++ q) = (apply json p).bind (fun next => apply next q) := by
  induction p generalizing json with
  | nil => rfl
  | cons segment rest ih =>
    simp only [List.cons_append, apply]
    cases child? json segment with
    | none => rfl
    | some next => exact ih next

end Path

end Stepwise
