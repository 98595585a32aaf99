import Stepwise.Condition.Token
import Stepwise.Fault
import Stepwise.Path.Basic

/-!
# Values of conditions

A condition is a tree of comparisons, joined by `and`, `or` and `not`. Any value may stand where
a truth value is asked for, and then counts as `Json.truthy` says. The terms of `and` and `or`
are taken from the left, and none is looked at once the answer is known.
-/

namespace Stepwise.Condition

/-- A condition. -/
inductive Expr where
  | anyOf (terms : List Expr)
  | allOf (terms : List Expr)
  | not (term : Expr)
  | compare (left : Expr) (op : Comparison) (right : Expr)
  | literal (value : Json)
  | path (segments : List Segment)

/-- Equality in conditions: two numbers are compared as doubles, other values as they are. -/
def equalValues (left right : Json) : Bool :=
  match left.number?, right.number? with
  | some a, some b => a == b
  | _, _ => left.same right

/-- The order of two values: both numbers, or both texts. -/
def order? (left right : Json) : Option Ordering :=
  match left, right with
  | .str a, .str b => some (if a < b then .lt else if a = b then .eq else .gt)
  | _, _ =>
    match left.number?, right.number? with
    | some a, some b =>
      if a < b then some .lt else if a == b then some .eq else if b < a then some .gt else none
    | _, _ => none

/-- Whether one value lies in another: in an array, in a text, or among the names of an object. -/
def memberOf? (left right : Json) : Option Bool :=
  match left, right with
  | _, .arr items => some (items.any (equalValues left))
  | .str part, .str whole => some (Text.occursIn part.toList whole.toList)
  | .str key, .obj members => some (Table.contains members key)
  | _, _ => none

/-- The answer of a comparison, where the two values can be compared. -/
def Comparison.holds? (op : Comparison) (left right : Json) : Option Bool :=
  match op with
  | .equal => some (equalValues left right)
  | .different => some (!equalValues left right)
  | .memberOf => memberOf? left right
  | .less => (order? left right).map (· == .lt)
  | .atMost => (order? left right).map (· != .gt)
  | .greater => (order? left right).map (· == .gt)
  | .atLeast => (order? left right).map (· != .lt)

/-- The answer of a comparison, or the fault that names the two kinds of values. -/
def Comparison.apply (op : Comparison) (left right : Json) : Except Fault Bool :=
  match op.holds? left right with
  | some answer => .ok answer
  | none => .error (.incomparable left.typeName op.symbol right.typeName)

namespace Expr

mutual

/-- The value of a condition. -/
def eval (scope : Scope) : Expr → Except Fault Json
  | .literal value => .ok value
  | .path segments =>
    match Path.lookup scope segments with
    | some value => .ok value
    | none => .error (.missingReference (Path.display segments))
  | .anyOf terms => (evalAny scope terms).map .bool
  | .allOf terms => (evalAll scope terms).map .bool
  | .not term => (eval scope term).map (fun value => .bool (!value.truthy))
  | .compare left op right =>
    (eval scope left).bind fun a =>
      (eval scope right).bind fun b => (op.apply a b).map .bool

/-- Whether a term holds. -/
def evalAny (scope : Scope) : List Expr → Except Fault Bool
  | [] => .ok false
  | term :: rest =>
    (eval scope term).bind fun value => if value.truthy then .ok true else evalAny scope rest

/-- Whether all terms hold. -/
def evalAll (scope : Scope) : List Expr → Except Fault Bool
  | [] => .ok true
  | term :: rest =>
    (eval scope term).bind fun value => if value.truthy then evalAll scope rest else .ok false

end

/-- Whether a condition holds. -/
def holds (scope : Scope) (e : Expr) : Except Fault Bool := (eval scope e).map Json.truthy

end Expr

end Stepwise.Condition
