import Stepwise.Condition.Evaluator
import Stepwise.Proofs.Decimal.Order
import Stepwise.Proofs.Path.Lookup

/-!
# Comparing integers

A condition compares two numbers as doubles. So it compares two integers as the integers that they
are rounded to, and the answer is that of the integers themselves unless two different ones are
rounded to the same (`evaluate_integers`). No two with at most 53 binary digits are.
-/

namespace Stepwise.Condition

open Decimal

/-- The answer of a comparison of two integers. -/
def Comparison.between (op : Comparison) (a b : Int) : Bool :=
  match op with
  | .equal => a = b
  | .different => a ≠ b
  | .less => a < b
  | .atMost => a ≤ b
  | .greater => b < a
  | .atLeast => b ≤ a
  | .memberOf => false

/-- A condition that compares two variables. -/
def comparing (op : Comparison) : String := "a " ++ op.symbol ++ " b"

/-- Each of the six comparisons of the two variables gives the answer for two integers. -/
def ComparesAs (scope : Scope) (m n : Int) : Prop :=
  ∀ op : Comparison, op ≠ .memberOf → evaluate scope (comparing op) = .ok (op.between m n)

/-! ## Values -/

variable {a b : Int}

theorem integer?_intToFloat (bound : a.natAbs < 2 ^ 64) :
    integer? (Json.intToFloat a) = some (rounded a) :=
  integer?_nearest_int bound

theorem equalValues_int (left : a.natAbs < 2 ^ 64) (right : b.natAbs < 2 ^ 64) :
    equalValues (.int a) (.int b) = decide (rounded a = rounded b) := by
  have same := beq_iff_of_integer? (integer?_intToFloat left) (integer?_intToFloat right)
  exact Bool.eq_iff_iff.2 (same.trans decide_eq_true_iff.symm)

theorem order?_int (left : a.natAbs < 2 ^ 64) (right : b.natAbs < 2 ^ 64) :
    order? (.int a) (.int b) = some (compare (rounded a) (rounded b)) := by
  have less := lt_iff_of_integer? (integer?_intToFloat left) (integer?_intToFloat right)
  have same := beq_iff_of_integer? (integer?_intToFloat left) (integer?_intToFloat right)
  have more := lt_iff_of_integer? (integer?_intToFloat right) (integer?_intToFloat left)
  change (if Json.intToFloat a < Json.intToFloat b then some Ordering.lt
    else if Json.intToFloat a == Json.intToFloat b then some Ordering.eq
    else if Json.intToFloat b < Json.intToFloat a then some Ordering.gt else none) = _
  rw [if_congr less rfl rfl, if_congr same rfl rfl, if_congr more rfl rfl]
  rcases lt_trichotomy (rounded a) (rounded b) with lt | eq | gt
  · rw [if_pos lt, compare_lt_iff_lt.2 lt]
  · rw [if_neg eq.not_lt, if_pos eq, compare_eq_iff_eq.2 eq]
  · rw [if_neg gt.not_gt, if_neg gt.ne', if_pos gt, compare_gt_iff_gt.2 gt]

/-- Two integers are compared as they are rounded. -/
theorem holds?_int (left : a.natAbs < 2 ^ 64) (right : b.natAbs < 2 ^ 64) {op : Comparison}
    (compares : op ≠ .memberOf) :
    op.holds? (.int a) (.int b) = some (op.between (rounded a) (rounded b)) := by
  have order := order?_int left right
  have equal := equalValues_int left right
  generalize rounded a = x at *
  generalize rounded b = y at *
  cases op with
  | memberOf => exact absurd rfl compares
  | equal => exact congrArg some equal
  | different => exact congrArg some ((congrArg not equal).trans decide_not.symm)
  | less =>
    rw [Comparison.holds?, order]
    exact congrArg some (Bool.eq_iff_iff.2 (by simp [Comparison.between, compare_lt_iff_lt]))
  | atMost =>
    rw [Comparison.holds?, order]
    exact congrArg some (Bool.eq_iff_iff.2 (by simp [Comparison.between, compare_le_iff_le]))
  | greater =>
    rw [Comparison.holds?, order]
    exact congrArg some (Bool.eq_iff_iff.2 (by simp [Comparison.between, compare_gt_iff_gt]))
  | atLeast =>
    rw [Comparison.holds?, order]
    exact congrArg some (Bool.eq_iff_iff.2 (by simp [Comparison.between, compare_ge_iff_ge]))

/-! ## Conditions -/

theorem compile_comparing {op : Comparison} (compares : op ≠ .memberOf) :
    compile (comparing op) = .ok (.compare (.path [.field "a"]) op (.path [.field "b"])) := by
  cases op with
  | memberOf => exact absurd rfl compares
  | _ => cbv

variable {scope : Scope} {left right : Json}

/-- Both variables are looked up, and then compared. -/
theorem evaluate_comparing (first : scope.bindings.find? "a" = some left)
    (second : scope.bindings.find? "b" = some right) {op : Comparison} (compares : op ≠ .memberOf)
    {answer : Bool} (holds : op.holds? left right = some answer) :
    evaluate scope (comparing op) = .ok answer := by
  have found {name : String} {value : Json} (result : name ∉ ["result", "results"])
      (binding : name ∉ ["context", "variables", "vars"])
      (bound : scope.bindings.find? name = some value) :
      Expr.eval scope (.path [.field name]) = .ok value := by
    rw [Expr.eval, Path.lookup_of_name scope result binding, bound]
    rfl
  rw [evaluate, compile_comparing compares, Except.bind, Expr.holds, Expr.eval,
    found (by decide) (by decide) first, found (by decide) (by decide) second]
  simp only [Except.bind, Comparison.apply, holds, Except.map, Json.truthy]

theorem comparesAs_rounded (first : scope.bindings.find? "a" = some (.int a))
    (second : scope.bindings.find? "b" = some (.int b)) (bound : a.natAbs < 2 ^ 64)
    (bound' : b.natAbs < 2 ^ 64) : ComparesAs scope (rounded a) (rounded b) :=
  fun _ compares => evaluate_comparing first second compares (holds?_int bound bound' compares)

/-- Rounding spoils nothing where it keeps different integers apart. -/
theorem between_rounded (apart : rounded a = rounded b → a = b) (op : Comparison) :
    op.between (rounded a) (rounded b) = op.between a b := by
  rcases lt_trichotomy a b with lt | rfl | gt
  · have less : rounded a < rounded b :=
      lt_of_le_of_ne (rounded_mono lt.le) fun same => lt.ne (apart same)
    cases op <;> simp [Comparison.between, less, lt, less.le, lt.le, less.ne, lt.ne, less.not_gt,
      lt.not_gt, less.not_ge, lt.not_ge]
  · cases op <;> simp [Comparison.between]
  · have less : rounded b < rounded a :=
      lt_of_le_of_ne (rounded_mono gt.le) fun same => gt.ne' (apart same.symm)
    cases op <;> simp [Comparison.between, less, gt, less.le, gt.le, less.ne', gt.ne', less.not_gt,
      gt.not_gt, less.not_ge, gt.not_ge]

theorem rounded_of_small (small : a.natAbs ≤ 2 ^ 53) : rounded a = a := by
  have fits : FitsDouble a.natAbs := by
    rcases Nat.lt_or_eq_of_le small with less | same
    · have places : a.natAbs.log2 - 52 = 0 := by
        rcases Nat.eq_zero_or_pos a.natAbs with zero | positive
        · rw [zero]
          rfl
        · have := (Nat.log2_lt (by omega)).2 less
          omega
      rw [FitsDouble, places]
      exact Nat.one_dvd _
    · rw [same]
      decide
  rw [rounded, roundedNat_of_fits fits, Int.sign_mul_natAbs]

theorem natAbs_toInt_lt (n : Int64) : n.toInt.natAbs < 2 ^ 64 := by
  have above := n.toInt_lt
  have below := n.le_toInt
  omega

/-- Six comparisons of two integers of 64 bits, held by variables, give the answers for the
integers that these are rounded to. The answers are right for the integers themselves exactly if
no two different ones are rounded to the same, and so for all up to `2 ^ 53`. -/
theorem compares_integers {m n : Int64} (first : scope.bindings.find? "a" = some (.int m.toInt))
    (second : scope.bindings.find? "b" = some (.int n.toInt)) :
    ComparesAs scope (rounded m.toInt) (rounded n.toInt) ∧
      (ComparesAs scope m.toInt n.toInt ↔ (rounded m.toInt = rounded n.toInt → m = n)) ∧
      (m.toInt.natAbs ≤ 2 ^ 53 → n.toInt.natAbs ≤ 2 ^ 53 → ComparesAs scope m.toInt n.toInt) := by
  have rounds := comparesAs_rounded first second (natAbs_toInt_lt m) (natAbs_toInt_lt n)
  have exact (apart : rounded m.toInt = rounded n.toInt → m = n) :
      ComparesAs scope m.toInt n.toInt := fun op compares =>
    (rounds op compares).trans
      (congrArg _ (between_rounded (fun same => congrArg Int64.toInt (apart same)) op))
  refine ⟨rounds, ⟨fun right same => ?_, exact⟩, fun small small' => exact fun same => ?_⟩
  · have answers := (rounds .equal nofun).symm.trans (right .equal nofun)
    simp only [Comparison.between, same, decide_true, Except.ok.injEq] at answers
    exact Int64.toInt_inj.1 (of_decide_eq_true answers.symm)
  · rw [rounded_of_small small, rounded_of_small small'] at same
    exact Int64.toInt_inj.1 same

/-- The least integer and the greatest are rounded, but not to the same. -/
theorem compares_integers_ends :
    let scope : Scope :=
      ⟨[("a", .int Int64.maxValue.toInt), ("b", .int Int64.minValue.toInt)], []⟩
    scope.bindings.find? "a" = some (.int Int64.maxValue.toInt) ∧
      scope.bindings.find? "b" = some (.int Int64.minValue.toInt) ∧
        ComparesAs scope Int64.maxValue.toInt Int64.minValue.toInt := by
  intro scope
  have apart : rounded Int64.maxValue.toInt ≠ rounded Int64.minValue.toInt := by decide +kernel
  exact ⟨rfl, rfl, (compares_integers rfl rfl).2.1.2 fun same => absurd same apart⟩

/-- Not every comparison of two integers is exact: `2 ^ 53` and the integer after it are rounded to
the same. -/
theorem not_comparesAs_always :
    ¬ ∀ (scope : Scope) (m n : Int64), scope.bindings.find? "a" = some (.int m.toInt) →
      scope.bindings.find? "b" = some (.int n.toInt) → ComparesAs scope m.toInt n.toInt := by
  intro always
  let m : Int64 := 9007199254740993
  let n : Int64 := 9007199254740992
  let scope : Scope := ⟨[("a", .int m.toInt), ("b", .int n.toInt)], []⟩
  have same : rounded m.toInt = rounded n.toInt := by decide +kernel
  have found : ComparesAs scope (rounded m.toInt) (rounded n.toInt) :=
    comparesAs_rounded rfl rfl (natAbs_toInt_lt m) (natAbs_toInt_lt n)
  have equal := (found .equal nofun).symm.trans (always scope m n rfl rfl .equal nofun)
  rw [same] at equal
  exact absurd equal (by decide +kernel)

end Stepwise.Condition
