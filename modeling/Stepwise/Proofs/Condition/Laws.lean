import Stepwise.Condition.Expr

/-!
# Laws of conditions

De Morgan's laws, double negation, the flattening of a conjunction in a conjunction or a disjunction
in a disjunction, and the negation of an equality: `boolean_laws`. Both sides of a law come to the
same answer or to the same fault. This is more than the laws of truth values say, for terms are
taken from the left and none is looked at once the answer is known: both sides have to stop at the
same term. `decided` is the one search behind `and` and `or`, and the laws of both follow from its
own.

Flattening keeps the value of a condition and not just its truth, so it may happen anywhere inside
another one (`Around.eval_fill`).
-/

namespace Stepwise.Condition.Expr

variable {scope : Scope}

theorem holds_eq (e : Expr) : holds scope e = (eval scope e).map Json.truthy := rfl

theorem holds_congr {a b : Expr} (same : eval scope a = eval scope b) :
    holds scope a = holds scope b := by
  rw [holds_eq, holds_eq, same]

/-! ## The search for a term that decides -/

/-- Looks for the first term whose truth is `stop`, which is the answer then. -/
def decided (scope : Scope) (stop : Bool) : List Expr → Except Fault Bool
  | [] => .ok !stop
  | term :: rest =>
    (holds scope term).bind fun yes => if yes = stop then .ok stop else decided scope stop rest

theorem decided_cons (stop : Bool) (term : Expr) (rest : List Expr) :
    decided scope stop (term :: rest) =
      (holds scope term).bind fun yes =>
        if yes = stop then .ok stop else decided scope stop rest := rfl

theorem evalAny_cons (term : Expr) (rest : List Expr) :
    evalAny scope (term :: rest) =
      (eval scope term).bind fun value =>
        if value.truthy then .ok true else evalAny scope rest := rfl

theorem evalAll_cons (term : Expr) (rest : List Expr) :
    evalAll scope (term :: rest) =
      (eval scope term).bind fun value =>
        if value.truthy then evalAll scope rest else .ok false := rfl

theorem evalAny_eq (terms : List Expr) : evalAny scope terms = decided scope true terms := by
  induction terms with
  | nil => rfl
  | cons term rest ih =>
    rw [evalAny_cons, decided_cons, holds_eq, ih]
    cases eval scope term <;> rfl

theorem evalAll_eq (terms : List Expr) : evalAll scope terms = decided scope false terms := by
  induction terms with
  | nil => rfl
  | cons term rest ih =>
    rw [evalAll_cons, decided_cons, holds_eq, ih]
    cases eval scope term with
    | error fault => rfl
    | ok value =>
      simp only [Except.map, Except.bind]
      cases value.truthy <;> rfl

/-! ## Values, by the form of a condition -/

theorem eval_anyOf (terms : List Expr) :
    eval scope (.anyOf terms) = (decided scope true terms).map .bool := by
  rw [← evalAny_eq]
  rfl

theorem eval_allOf (terms : List Expr) :
    eval scope (.allOf terms) = (decided scope false terms).map .bool := by
  rw [← evalAll_eq]
  rfl

theorem eval_not (term : Expr) :
    eval scope (.not term) = (eval scope term).map (fun value => .bool (!value.truthy)) := rfl

theorem eval_compare (left : Expr) (op : Comparison) (right : Expr) :
    eval scope (.compare left op right) =
      (eval scope left).bind fun a =>
        (eval scope right).bind fun b => (op.apply a b).map .bool := rfl

theorem holds_anyOf (terms : List Expr) :
    holds scope (.anyOf terms) = decided scope true terms := by
  rw [holds_eq, eval_anyOf]
  cases decided scope true terms <;> rfl

theorem holds_allOf (terms : List Expr) :
    holds scope (.allOf terms) = decided scope false terms := by
  rw [holds_eq, eval_allOf]
  cases decided scope false terms <;> rfl

theorem holds_not (term : Expr) : holds scope (.not term) = (holds scope term).map (!·) := by
  rw [holds_eq, holds_eq, eval_not]
  cases eval scope term <;> rfl

theorem holds_compare (left : Expr) (op : Comparison) (right : Expr) :
    holds scope (.compare left op right) =
      (eval scope left).bind fun a => (eval scope right).bind fun b => op.apply a b := by
  rw [holds_eq, eval_compare]
  cases eval scope left with
  | error fault => rfl
  | ok a =>
    cases eval scope right with
    | error fault => rfl
    | ok b =>
      simp only [Except.bind]
      cases op.apply a b <;> rfl

/-! ## Laws of the search -/

/-- The negated terms are decided by the same term, the other way round. -/
theorem decided_map_not (stop : Bool) (terms : List Expr) :
    decided scope (!stop) (terms.map .not) = (decided scope stop terms).map (!·) := by
  induction terms with
  | nil => rfl
  | cons term rest ih =>
    rw [List.map_cons, decided_cons, decided_cons, holds_not, ih]
    cases holds scope term with
    | error fault => rfl
    | ok yes => cases yes <;> cases stop <;> rfl

/-- The terms at the back are looked at only if none in front decides. -/
theorem decided_append (stop : Bool) (front back : List Expr) :
    decided scope stop (front ++ back) =
      (decided scope stop front).bind fun yes =>
        if yes = stop then .ok stop else decided scope stop back := by
  induction front with
  | nil => cases stop <;> rfl
  | cons term rest ih =>
    rw [List.cons_append, decided_cons, decided_cons, ih]
    cases holds scope term with
    | error fault => rfl
    | ok yes =>
      by_cases found : yes = stop
      · simp only [Except.bind, found, if_true]
      · simp only [Except.bind, found, if_false]

/-- A term that is itself such a search may give way to its own terms. -/
theorem decided_flatten {stop : Bool} {term : Expr} {inner : List Expr}
    (own : holds scope term = decided scope stop inner) (front back : List Expr) :
    decided scope stop (front ++ term :: back) = decided scope stop (front ++ inner ++ back) := by
  rw [List.append_assoc, decided_append, decided_append stop front, decided_cons, own,
    decided_append]

/-- Of a term only the truth matters. -/
theorem decided_congr {stop : Bool} {a b : Expr} (same : holds scope a = holds scope b)
    (front back : List Expr) :
    decided scope stop (front ++ a :: back) = decided scope stop (front ++ b :: back) := by
  rw [decided_append, decided_append, decided_cons, decided_cons, same]

theorem eval_anyOf_flatten (front inner back : List Expr) :
    eval scope (.anyOf (front ++ .anyOf inner :: back)) =
      eval scope (.anyOf (front ++ inner ++ back)) := by
  rw [eval_anyOf, eval_anyOf, decided_flatten (holds_anyOf inner)]

theorem eval_allOf_flatten (front inner back : List Expr) :
    eval scope (.allOf (front ++ .allOf inner :: back)) =
      eval scope (.allOf (front ++ inner ++ back)) := by
  rw [eval_allOf, eval_allOf, decided_flatten (holds_allOf inner)]

/-! ## Conditions inside conditions -/

/-- A condition in which the place of one inside it, at any depth, is left open. -/
inductive Around where
  | here
  | anyOf (front : List Expr) (term : Around) (back : List Expr)
  | allOf (front : List Expr) (term : Around) (back : List Expr)
  | not (term : Around)
  | onLeft (left : Around) (op : Comparison) (right : Expr)
  | onRight (left : Expr) (op : Comparison) (right : Around)

namespace Around

/-- Puts a condition into the open place. -/
def fill (e : Expr) : Around → Expr
  | here => e
  | anyOf front term back => .anyOf (front ++ term.fill e :: back)
  | allOf front term back => .allOf (front ++ term.fill e :: back)
  | not term => .not (term.fill e)
  | onLeft left op right => .compare (left.fill e) op right
  | onRight left op right => .compare left op (right.fill e)

/-- Of the condition in the open place only the value matters. -/
theorem eval_fill {a b : Expr} (same : eval scope a = eval scope b) (around : Around) :
    eval scope (around.fill a) = eval scope (around.fill b) := by
  induction around with
  | here => exact same
  | anyOf front term back ih =>
    show eval scope (.anyOf (front ++ term.fill a :: back)) = _
    rw [eval_anyOf, decided_congr (holds_congr ih), ← eval_anyOf]
    rfl
  | allOf front term back ih =>
    show eval scope (.allOf (front ++ term.fill a :: back)) = _
    rw [eval_allOf, decided_congr (holds_congr ih), ← eval_allOf]
    rfl
  | not term ih =>
    show eval scope (.not (term.fill a)) = _
    rw [eval_not, ih]
    rfl
  | onLeft left op right ih =>
    show eval scope (.compare (left.fill a) op right) = _
    rw [eval_compare, ih]
    rfl
  | onRight left op right ih =>
    show eval scope (.compare left op (right.fill a)) = _
    rw [eval_compare, ih]
    rfl

theorem holds_fill {a b : Expr} (same : eval scope a = eval scope b) (around : Around) :
    holds scope (around.fill a) = holds scope (around.fill b) :=
  holds_congr (around.eval_fill same)

end Around

/-- Conditions obey the laws of Boolean algebra, with the same fault on both sides of a law where
there is one. -/
theorem boolean_laws (scope : Scope) :
    (∀ terms, holds scope (.not (.allOf terms)) = holds scope (.anyOf (terms.map .not))) ∧
    (∀ terms, holds scope (.not (.anyOf terms)) = holds scope (.allOf (terms.map .not))) ∧
    (∀ e, holds scope (.not (.not e)) = holds scope e) ∧
    (∀ (around : Around) (front inner back : List Expr),
      holds scope (around.fill (.allOf (front ++ .allOf inner :: back))) =
        holds scope (around.fill (.allOf (front ++ inner ++ back)))) ∧
    (∀ (around : Around) (front inner back : List Expr),
      holds scope (around.fill (.anyOf (front ++ .anyOf inner :: back))) =
        holds scope (around.fill (.anyOf (front ++ inner ++ back)))) ∧
    ∀ left right, holds scope (.compare left .different right) =
      holds scope (.not (.compare left .equal right)) := by
  refine ⟨fun terms => ?_, fun terms => ?_, fun e => ?_,
    fun around front inner back => around.holds_fill (eval_allOf_flatten front inner back),
    fun around front inner back => around.holds_fill (eval_anyOf_flatten front inner back),
    fun left right => ?_⟩
  · rw [holds_not, holds_allOf, holds_anyOf]
    exact (decided_map_not false terms).symm
  · rw [holds_not, holds_anyOf, holds_allOf]
    exact (decided_map_not true terms).symm
  · rw [holds_not, holds_not]
    cases holds scope e with
    | error fault => rfl
    | ok yes => cases yes <;> rfl
  · rw [holds_not, holds_compare, holds_compare]
    cases eval scope left with
    | error fault => rfl
    | ok a => cases eval scope right <;> rfl

end Stepwise.Condition.Expr
