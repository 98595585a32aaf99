import Stepwise.Decimal.Binary
import Stepwise.Table
import Stepwise.Width

/-!
# JSON values

The values that steps, parameters and results are made of. Integers and doubles are different
values even where they are equal numbers, and an object is a table, so its members stand in the
order of their names.
-/

namespace Stepwise

/-- A JSON value. -/
inductive Json where
  | null
  | bool (value : Bool)
  | int (value : Int)
  | float (value : Float)
  | str (value : String)
  | arr (items : List Json)
  | obj (members : List (String × Json))

namespace Json

instance : Inhabited Json := ⟨null⟩

/-- An object of members in any order; the last member of a name counts. -/
def ofMembers (members : List (String × Json)) : Json := .obj (Table.ofList members)

/-- The kind of a value, as messages name it. -/
def typeName : Json → String
  | .null => "null"
  | .bool _ => "bool"
  | .int _ => "number"
  | .float _ => "number"
  | .str _ => "string"
  | .arr _ => "array"
  | .obj _ => "object"

/-- The member of an object under a name. -/
def member? : Json → String → Option Json
  | .obj members, name => Table.find? members name
  | _, _ => none

/-- The item of an array at a place. -/
def item? : Json → Nat → Option Json
  | .arr items, i => items[i]?
  | _, _ => none

/-- The text, if the value is one. -/
def str? : Json → Option String
  | .str s => some s
  | _ => none

/-- The truth value, if the value is one. -/
def bool? : Json → Option Bool
  | .bool b => some b
  | _ => none

/-- A non-negative integer below `2 ^ 64`. -/
def nat? : Json → Option Nat
  | .int n => if 0 ≤ n then some n.toNat else none
  | _ => none

/-- The double nearest to an integer. -/
def intToFloat (n : Int) : Float := Decimal.nearest (n < 0) n.natAbs 1

/-- A double as a value; one that is not finite is null. -/
def ofFloat (x : Float) : Json := if x.isFinite then .float x else .null

/-- A number as a double. -/
def number? : Json → Option Float
  | .int n => some (intToFloat n)
  | .float x => some x
  | _ => none

/-- A natural number as a value. -/
def ofNat (n : Nat) : Json := .int n

/-- An optional value, with `null` for none. -/
def ofOption {α : Type} (f : α → Json) : Option α → Json
  | none => .null
  | some a => f a

mutual

/-- Equality of values: doubles as numbers, so zero is its own negative. -/
def same : Json → Json → Bool
  | .null, .null => true
  | .bool a, .bool b => a == b
  | .int a, .int b => a == b
  | .float a, .float b => a == b
  | .str a, .str b => a == b
  | .arr a, .arr b => sameItems a b
  | .obj a, .obj b => sameMembers a b
  | _, _ => false

/-- Lists are the same item by item. -/
def sameItems : List Json → List Json → Bool
  | [], [] => true
  | a :: as, b :: bs => same a b && sameItems as bs
  | _, _ => false

/-- Objects are the same member by member, in their order. -/
def sameMembers : List (String × Json) → List (String × Json) → Bool
  | [], [] => true
  | (k, a) :: as, (l, b) :: bs => k == l && same a b && sameMembers as bs
  | _, _ => false

end

/-- Whether a value counts as true: nulls, zeros and empty texts, arrays and objects do not. -/
def truthy : Json → Bool
  | .null => false
  | .bool b => b
  | .int n => n != 0
  | .float x => x != 0
  | .str s => s != ""
  | .arr items => !items.isEmpty
  | .obj members => !members.isEmpty

end Json

end Stepwise
