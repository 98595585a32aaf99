import Stepwise.Catalog

/-!
# Edit distances

An edit puts one character into a text, takes one out, or puts one in the place of another.
`Edits n` relates texts of which `n` edits, one after another and anywhere in the text, make the
second out of the first. The table that `distance` goes through row by row holds the least such
number for every pair of beginnings: `cost` says so by recursion on the two beginnings, read
backwards. Some sequence of edits is as short as that (`edits_cost`), and none is shorter, since
one edit changes the cost by one at most (`Edit.cost_le`).
-/

namespace Stepwise.Catalog

/-! ## Edits -/

/-- One edit of a text. -/
inductive Edit : List Char → List Char → Prop where
  | insert (front back : List Char) (c : Char) : Edit (front ++ back) (front ++ c :: back)
  | delete (front back : List Char) (c : Char) : Edit (front ++ c :: back) (front ++ back)
  | substitute (front back : List Char) (c d : Char) :
    Edit (front ++ c :: back) (front ++ d :: back)

/-- A sequence of so many edits. -/
inductive Edits : Nat → List Char → List Char → Prop where
  | none (a : List Char) : Edits 0 a a
  | step {n : Nat} {a b c : List Char} (first : Edit a b) (rest : Edits n b c) : Edits (n + 1) a c

variable {n : Nat} {a b : List Char}

theorem Edit.cons (c : Char) (h : Edit a b) : Edit (c :: a) (c :: b) := by
  cases h with
  | insert front back d => exact .insert (c :: front) back d
  | delete front back d => exact .delete (c :: front) back d
  | substitute front back d e => exact .substitute (c :: front) back d e

theorem Edits.cons (c : Char) (h : Edits n a b) : Edits n (c :: a) (c :: b) := by
  induction h with
  | none a => exact .none (c :: a)
  | step first _ ih => exact .step (first.cons c) ih

/-- Edits from the back are edits from the front. -/
theorem Edit.reverse (h : Edit a b) : Edit a.reverse b.reverse := by
  cases h with
  | insert front back c =>
    simpa using Edit.insert back.reverse front.reverse c
  | delete front back c =>
    simpa using Edit.delete back.reverse front.reverse c
  | substitute front back c d =>
    simpa using Edit.substitute back.reverse front.reverse c d

theorem Edits.reverse (h : Edits n a b) : Edits n a.reverse b.reverse := by
  induction h with
  | none a => exact .none a.reverse
  | step first _ ih => exact .step first.reverse ih

/-! ## The cost of edits -/

/-- The least number of edits, by the first characters of the two texts. -/
def cost : List Char → List Char → Nat
  | [], b => b.length
  | a, [] => a.length
  | c :: a, d :: b =>
    min (min (cost a b + (if c = d then 0 else 1)) (cost a (d :: b) + 1)) (cost (c :: a) b + 1)
termination_by a b => a.length + b.length

theorem cost_nil_left (b : List Char) : cost [] b = b.length := by
  rw [cost]

theorem cost_nil_right (a : List Char) : cost a [] = a.length := by
  cases a <;> rw [cost]
  simp

theorem cost_cons (c d : Char) (a b : List Char) :
    cost (c :: a) (d :: b) =
      min (min (cost a b + (if c = d then 0 else 1)) (cost a (d :: b) + 1))
        (cost (c :: a) b + 1) := by
  rw [cost]

theorem edits_of_nil (b : List Char) : Edits b.length [] b := by
  induction b with
  | nil => exact .none []
  | cons d b ih => exact .step (.insert [] [] d) (ih.cons d)

theorem edits_to_nil (a : List Char) : Edits a.length a [] := by
  induction a with
  | nil => exact .none []
  | cons c a ih => exact .step (.delete [] a c) ih

/-- The least of the three ways to go on is one of them. -/
theorem cost_cons_cases (c d : Char) (a b : List Char) :
    cost (c :: a) (d :: b) = cost a b + (if c = d then 0 else 1) ∨
      cost (c :: a) (d :: b) = cost a (d :: b) + 1 ∨
      cost (c :: a) (d :: b) = cost (c :: a) b + 1 := by
  rw [cost_cons]
  omega

/-- Some sequence of edits is as short as the cost. -/
theorem edits_cost (a b : List Char) : Edits (cost a b) a b := by
  fun_induction cost a b with
  | case1 b => exact edits_of_nil b
  | case2 a => exact edits_to_nil a
  | case3 c a d b kept removed added =>
    rw [← cost_cons]
    rcases cost_cons_cases c d a b with h | h | h
    · rw [h]
      by_cases same : c = d
      · rw [if_pos same, ← same]
        exact kept.cons c
      · rw [if_neg same]
        exact .step (.substitute [] a c d) (kept.cons d)
    · rw [h]
      exact .step (.delete [] a c) removed
    · rw [h]
      exact .step (.insert [] (c :: a) d) (added.cons d)

/-! ### One edit changes the cost by one at most -/

theorem cost_cons_left_le (c : Char) (a x : List Char) : cost (c :: a) x ≤ cost a x + 1 := by
  cases x with
  | nil => simp [cost_nil_right]
  | cons e x =>
    rw [cost_cons]
    omega

theorem cost_cons_right_le (a : List Char) (e : Char) (x : List Char) :
    cost a (e :: x) ≤ cost a x + 1 := by
  cases a with
  | nil => simp [cost_nil_left]
  | cons c a =>
    rw [cost_cons]
    omega

theorem cost_le_cons_left (c : Char) (a x : List Char) : cost a x ≤ cost (c :: a) x + 1 := by
  induction x with
  | nil =>
    rw [cost_nil_right, cost_nil_right, List.length_cons]
    omega
  | cons e x ih =>
    -- Where `c` is kept or replaced, `e` can be put in instead.
    have added := cost_cons_right_le a e x
    rcases cost_cons_cases c e a x with h | h | h <;> omega

theorem cost_substitute_le (c d : Char) (a x : List Char) :
    cost (d :: a) x ≤ cost (c :: a) x + 1 := by
  induction x with
  | nil =>
    rw [cost_nil_right, cost_nil_right, List.length_cons, List.length_cons]
    omega
  | cons e x ih =>
    have least := cost_cons d e a x
    have one : (if d = e then 0 else 1) ≤ 1 := by split <;> omega
    rcases cost_cons_cases c e a x with h | h | h <;> omega

/-- A character in front of both texts keeps their costs as close as they are. -/
theorem cost_cons_le (c : Char) (near : ∀ x, cost b x ≤ cost a x + 1) (x : List Char) :
    cost (c :: b) x ≤ cost (c :: a) x + 1 := by
  induction x with
  | nil =>
    have := near []
    rw [cost_nil_right, cost_nil_right] at this ⊢
    simpa using this
  | cons e x ih =>
    -- Each of the three ways on from `c :: a` is open to `c :: b` as well.
    have least := cost_cons c e b x
    have front := near x
    have whole := near (e :: x)
    rcases cost_cons_cases c e a x with h | h | h <;> omega

theorem cost_append_le (front : List Char) (near : ∀ x, cost b x ≤ cost a x + 1) (x : List Char) :
    cost (front ++ b) x ≤ cost (front ++ a) x + 1 := by
  induction front generalizing x with
  | nil => exact near x
  | cons c front ih => exact cost_cons_le c ih x

theorem Edit.cost_le (h : Edit a b) (x : List Char) : cost a x ≤ cost b x + 1 := by
  cases h with
  | insert front back c => exact cost_append_le front (cost_le_cons_left c back) x
  | delete front back c => exact cost_append_le front (cost_cons_left_le c back) x
  | substitute front back c d => exact cost_append_le front (cost_substitute_le d c back) x

theorem cost_self (a : List Char) : cost a a = 0 := by
  induction a with
  | nil => exact cost_nil_left []
  | cons c a ih =>
    rw [cost_cons, if_pos rfl, ih]
    omega

/-- No sequence of edits is shorter than the cost. -/
theorem cost_le_of_edits (h : Edits n a b) : cost a b ≤ n := by
  induction h with
  | none a => exact Nat.le_of_eq (cost_self a)
  | @step n a b c first rest ih =>
    calc cost a c ≤ cost b c + 1 := first.cost_le c
      _ ≤ n + 1 := Nat.succ_le_succ ih

/-! ## The table -/

/-- The row of the table for one beginning `p` of the first text, from the beginning `q` of the
second one on; beginnings are given from their last character to their first. -/
def rowFrom (p : List Char) : (q : List Char) → List Char → List Nat
  | _, [] => []
  | q, d :: b => cost p (d :: q) :: rowFrom p (d :: q) b

/-- The row for one character more. -/
theorem nextRow_rowFrom (c : Char) (p q b : List Char) :
    nextRow c b (rowFrom p q b) (cost p q) (cost (c :: p) q) = rowFrom (c :: p) q b := by
  induction b generalizing q with
  | nil => rfl
  | cons d b ih =>
    rw [rowFrom, rowFrom, nextRow, ← cost_cons, ih]

/-- The last cell of a row is about the whole of the second text. -/
theorem getLastD_rowFrom (p q b : List Char) :
    (rowFrom p q b).getLastD (cost p q) = cost p (b.reverse ++ q) := by
  induction b generalizing q with
  | nil => rfl
  | cons d b ih =>
    rw [rowFrom, List.getLastD_cons, ih, List.reverse_cons, List.append_assoc,
      List.singleton_append]

/-- Going down the rows comes to the cost of the two whole texts. -/
theorem lastCell_rowFrom (b a p : List Char) :
    lastCell b a (cost p []) (rowFrom p [] b) = cost (a.reverse ++ p) b.reverse := by
  induction a generalizing p with
  | nil =>
    rw [lastCell, getLastD_rowFrom, List.append_nil]
    rfl
  | cons c a ih =>
    have corner : cost p [] + 1 = cost (c :: p) [] := by
      rw [cost_nil_right, cost_nil_right, List.length_cons]
    rw [lastCell, corner, nextRow_rowFrom, ih, List.reverse_cons, List.append_assoc,
      List.singleton_append]

theorem rowFrom_nil (q b : List Char) : rowFrom [] q b = List.range' (q.length + 1) b.length := by
  induction b generalizing q with
  | nil => rfl
  | cons d b ih =>
    rw [rowFrom, ih, cost_nil_left, List.length_cons, List.length_cons, List.range'_succ]

theorem distance_eq (a b : String) :
    distance a b = cost a.toList.reverse b.toList.reverse := by
  have first : List.range' 1 b.toList.length = rowFrom [] [] b.toList := by
    rw [rowFrom_nil, List.length_nil]
  have none : 0 = cost [] [] := by rw [cost_nil_left, List.length_nil]
  rw [distance, first, none, lastCell_rowFrom, List.append_nil]

/-! ## The distance -/

/-- The least number of edits that make the second text out of the first. -/
structure IsDistance (n : Nat) (a b : String) : Prop where
  reached : Edits n a.toList b.toList
  least : ∀ {m}, Edits m a.toList b.toList → n ≤ m

theorem isDistance_distance (a b : String) : IsDistance (distance a b) a b where
  reached := by
    rw [distance_eq]
    simpa using (edits_cost a.toList.reverse b.toList.reverse).reverse
  least := by
    intro m edits
    rw [distance_eq]
    exact cost_le_of_edits edits.reverse

end Stepwise.Catalog
