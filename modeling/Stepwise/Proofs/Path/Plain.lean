import Stepwise.Condition.Parser
import Stepwise.Proofs.Decimal.Integer
import Stepwise.Proofs.Path.Parts

/-!
# Plain paths

The two readers of paths, that of references and that of conditions, understand a path alike when
it is plain: no name starts with a dash, no two places stand in a row, no key has a backslash in
it, and no place loses digits when it is read as a double.
-/

namespace Stepwise.Path

open Text Condition

/-! ## Plain paths -/

/-- A place that is the same after a way through doubles. The last place there is comes back
too: it is rounded up, and then cut off at the bound. -/
def Survives (n : Nat) : Prop := Decimal.FitsDouble n ∨ n = UInt64.size - 1

instance (n : Nat) : Decidable (Survives n) :=
  inferInstanceAs (Decidable (Decimal.FitsDouble n ∨ n = UInt64.size - 1))

namespace Part

/-- A name of digits alone. -/
def IsPlace : Part → Prop
  | name text => ∀ c ∈ text, isDigit c = true
  | bracket _ => False

instance : DecidablePred IsPlace
  | name text => inferInstanceAs (Decidable (∀ c ∈ text, isDigit c = true))
  | bracket _ => inferInstanceAs (Decidable False)

/-- A part that means the same to both readers: a name that does not start with a dash, and is
no place too great to be kept; or a key without a backslash, or a place that is kept. -/
def Plain : Part → Prop
  | name text => text.head? ≠ some '-' ∧
      (IsPlace (name text) → digitsValue text < UInt64.size ∧ Survives (digitsValue text))
  | bracket inner => '\\' ∉ inner ∧ ∀ n ∈ index? (trimmed inner), Survives n

instance : DecidablePred Plain
  | name text => inferInstanceAs (Decidable (text.head? ≠ some '-' ∧
      (IsPlace (name text) → digitsValue text < UInt64.size ∧ Survives (digitsValue text))))
  | bracket inner =>
    inferInstanceAs (Decidable ('\\' ∉ inner ∧ ∀ n ∈ index? (trimmed inner), Survives n))

end Part

/-- A path of plain parts without two places in a row. -/
structure Plain (ps : List Part) : Prop where
  each : ∀ p ∈ ps, p.Plain
  apart : ps.IsChain (fun p q => ¬ (p.IsPlace ∧ q.IsPlace))

/-! ## Places -/

theorem indexOf?_eq_some {x : Float} {segment : Segment} (h : indexOf? x = some segment) :
    ∃ n, segment = .index n := by
  unfold indexOf? at h
  split at h
  · split at h <;> cases h
    exact ⟨_, rfl⟩
  · cases h

/-- A row of digits is the same place to both readers when the place survives. -/
theorem indexOf?_digits {digits : List Char} {segment : Segment}
    (bound : digitsValue digits < UInt64.size)
    (h : indexOf? (numberValue false digits []) = some segment) :
    segment = .index (digitsValue digits) ↔ Survives (digitsValue digits) := by
  simp only [numberValue, List.append_nil, List.length_nil, Nat.cast_zero, neg_zero] at h
  generalize digitsValue digits = n at bound h
  obtain ⟨m, integer, fits⟩ := Decimal.integer?_toFloat bound
  simp only [indexOf?, integer, Int.natCast_nonneg, if_true, Int.toNat_natCast] at h
  obtain rfl := Option.some.inj h
  simp only [Segment.index.injEq, Survives, ← fits]
  by_cases last : n = UInt64.size - 1
  · subst last
    have rounded : Decimal.integer? (Decimal.toFloat false (UInt64.size - 1) 0)
        = some ((UInt64.size : Nat) : Int) := by decide +kernel
    rw [integer] at rounded
    have above : m = UInt64.size := Int.ofNat.inj (Option.some.inj rounded)
    rw [above]
    decide
  · simp only [last, or_false]
    omega

theorem index?_unsigned {cs : List Char} (h : cs.head? ≠ some '+') :
    index? cs = if cs.isEmpty || !cs.all isDigit then none
      else if digitsValue cs < UInt64.size then some (digitsValue cs) else none := by
  unfold index?
  split
  · exact absurd rfl h
  · rfl

/-- The digits that a place is read from. -/
theorem index?_eq_some {cs : List Char} {n : Nat} (h : index? cs = some n) :
    ∃ digits, (cs = digits ∨ cs = '+' :: digits) ∧ digits ≠ [] ∧
      (∀ c ∈ digits, isDigit c = true) ∧ n = digitsValue digits ∧ n < UInt64.size := by
  have read : ∀ digits : List Char, (if digits.isEmpty || !digits.all isDigit then none
      else if digitsValue digits < UInt64.size then some (digitsValue digits) else none) = some n →
      digits ≠ [] ∧ (∀ c ∈ digits, isDigit c = true) ∧ n = digitsValue digits ∧
        n < UInt64.size := by
    intro digits found
    rw [Option.ite_none_left_eq_some, Option.ite_none_right_eq_some] at found
    obtain ⟨shape, bound, value⟩ := found
    obtain rfl := Option.some.inj value
    simp only [Bool.or_eq_true, not_or, Bool.not_eq_true, Bool.not_eq_false', List.isEmpty_eq_false_iff,
      List.all_eq_true] at shape
    exact ⟨shape.1, shape.2, rfl, bound⟩
  unfold index? at h
  split at h
  · next digits => exact ⟨digits, .inr rfl, read digits h⟩
  · exact ⟨cs, .inl rfl, read cs h⟩

theorem index?_digits {text : List Char} (some : text ≠ []) (all : ∀ c ∈ text, isDigit c = true) :
    index? text
      = if digitsValue text < UInt64.size then .some (digitsValue text) else none := by
  have noPlus : text.head? ≠ .some '+' := by
    intro plus
    cases all '+' (List.mem_of_head? plus)
  have digits : text.all isDigit = true := List.all_eq_true.2 all
  rw [index?_unsigned noPlus, if_neg (by simp [some, digits])]

/-- A name that starts with no digit is a name to the reader of references. -/
theorem nameSegment_of_not_digit {c : Char} {name : List Char} (char : isNameChar c = true)
    (h : isDigit c = false) :
    nameSegment false (c :: name) = .field (String.ofList (c :: name)) := by
  unfold nameSegment
  rw [if_neg (by simp)]
  split
  · next n found =>
    obtain ⟨digits, same, some, all, -, -⟩ := index?_eq_some found
    rcases same with same | same
    · rw [← same] at all
      rw [all c List.mem_cons_self] at h
      cases h
    · obtain ⟨rfl, -⟩ := List.cons.inj same
      cases char
  · rfl

/-- A name of digits is the same segment to both readers exactly when it is plain. -/
theorem nameSegment_digits {digits : List Char} {segment : Segment} (some : digits ≠ [])
    (all : ∀ c ∈ digits, isDigit c = true)
    (h : indexOf? (numberValue false digits []) = .some segment) :
    nameSegment false digits = segment ↔ (Part.name digits).Plain := by
  have noDash : digits.head? ≠ .some '-' := by
    intro dash
    cases all '-' (List.mem_of_head? dash)
  unfold nameSegment
  rw [if_neg (by simp), index?_digits some all]
  by_cases bound : digitsValue digits < UInt64.size
  · rw [if_pos bound]
    simp only [Part.Plain, Part.IsPlace, noDash, bound, true_and, ne_eq, not_false_eq_true]
    rw [eq_comm, indexOf?_digits bound h]
    exact ⟨fun kept _ => kept, fun kept => kept all⟩
  · rw [if_neg bound]
    obtain ⟨n, rfl⟩ := indexOf?_eq_some h
    simp only [Part.Plain, Part.IsPlace, bound, false_and, reduceCtorEq, false_iff]
    exact fun plain => plain.2 all

end Stepwise.Path
