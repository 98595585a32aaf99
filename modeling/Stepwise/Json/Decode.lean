import Stepwise.Duration
import Stepwise.Json.Basic

/-!
# Typed values from JSON

Readers of typed values. A record is an object of named fields, of which unknown ones are
ignored, or an array of its fields in their order. An integer must be written as one; a double
may be written as an integer.
-/

namespace Stepwise.Json

/-- A natural number below a bound. -/
def natBelow? (bound : Nat) (json : Json) : Option Nat :=
  match json with
  | .int n => if 0 ≤ n ∧ n < bound then some n.toNat else none
  | _ => none

/-- An integer that fits in thirty-two bits. -/
def uint32? (json : Json) : Option UInt32 := (json.natBelow? UInt32.size).map UInt32.ofNat

/-- An integer that fits in sixty-four bits. -/
def uint64? (json : Json) : Option UInt64 := (json.natBelow? UInt64.size).map UInt64.ofNat

/-- A list of values that a reader accepts. -/
def list? {α : Type} (read : Json → Option α) : Json → Option (List α)
  | .arr items => items.mapM read
  | _ => none

/-- The members of an object. -/
def table? : Json → Option (Table Json)
  | .obj members => some members
  | _ => none

/-- A number of seconds as a duration. -/
def seconds? (json : Json) : Option Duration := do
  match Duration.ofSeconds (← json.number?) with
  | .ok d => some d
  | .error _ => none

/-- A name out of a closed list of names, as a string or as the one member of an object whose
value is null. -/
def name? : Json → Option String
  | .str s => some s
  | .obj [(name, .null)] => some name
  | _ => none

/-- The fields of a record as they were found. -/
structure Fields where
  members : Table Json
  placed : Bool

/-- The fields of a record with the given names. -/
def fields? (names : List String) : Json → Option Fields
  | .obj members => some ⟨members, false⟩
  | .arr items => if items.length ≤ names.length then some ⟨names.zip items, true⟩ else none
  | _ => none

namespace Fields

/-- A field that must be there. -/
def required? {α : Type} (fields : Fields) (name : String) (read : Json → Option α) : Option α :=
  (Table.find? fields.members name).bind read

/-- A field with a value of its own when it is missing. -/
def defaulted? {α : Type} (fields : Fields) (name : String) (read : Json → Option α)
    (default : α) : Option α :=
  match Table.find? fields.members name with
  | none => some default
  | some json => read json

/-- A value or null. -/
def nullable? {α : Type} (read : Json → Option α) : Json → Option (Option α)
  | .null => some none
  | json => (read json).map some

/-- A field that may be missing or null. -/
def optional? {α : Type} (fields : Fields) (name : String) (read : Json → Option α) :
    Option (Option α) :=
  fields.defaulted? name (nullable? read) none

/-- A field that may be null, and missing from an object only. -/
def absent? {α : Type} (fields : Fields) (name : String) (read : Json → Option α) :
    Option (Option α) :=
  match Table.find? fields.members name with
  | none => if fields.placed then none else some none
  | some json => nullable? read json

end Fields

/-- A duration written as its whole seconds and the nanoseconds past them, and nothing else. -/
def duration? (json : Json) : Option Duration := do
  let fields ← json.fields? ["secs", "nanos"]
  guard (fields.members.all (fun field => field.1 == "secs" || field.1 == "nanos"))
  let secs ← fields.required? "secs" (natBelow? UInt64.size)
  let nanos ← fields.required? "nanos" (natBelow? UInt32.size)
  let total := secs * nanosPerSecond + nanos
  if total ≤ greatestNanos then some (Duration.ofNanos total) else none

/-- The record that `duration?` reads. -/
def ofDuration (d : Duration) : Json :=
  .obj [("nanos", .int d.subsecNanos), ("secs", .int d.secs)]

end Stepwise.Json
