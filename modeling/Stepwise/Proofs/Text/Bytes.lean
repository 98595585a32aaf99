import Mathlib.Tactic.SplitIfs

/-!
# The order of bytes

Texts compare character by character, and characters by their numbers. The bytes of the texts in
UTF-8 compare in the same way: where two characters differ, so do their bytes, and the first byte
that does is less in the lesser character.
-/

namespace Stepwise.Text

/-- The bytes of a text in UTF-8. -/
def bytes (s : String) : List UInt8 := s.toUTF8.data.toList

theorem bytes_eq (s : String) : bytes s = s.toList.flatMap String.utf8EncodeChar := by
  have text : s.toByteArray = (s.toList.flatMap String.utf8EncodeChar).toByteArray := by
    rw [← List.utf8Encode.eq_1, ← String.toByteArray_ofList, String.ofList_toList]
  rw [bytes, String.toUTF8_eq_toByteArray, text, List.data_toByteArray]

/-- The bytes of a lesser character are less, whatever follows the two. -/
theorem utf8EncodeChar_append_lt {c d : Char} (less : c < d) (x y : List UInt8) :
    String.utf8EncodeChar c ++ x < String.utf8EncodeChar d ++ y := by
  have hless : c.val.toNat < d.val.toNat := less
  have bound : d.val.toNat < 1114112 := by
    rcases d.valid with h | h
    · omega
    · exact h.2
  unfold String.utf8EncodeChar
  generalize c.val.toNat = m at hless
  generalize d.val.toNat = n at hless bound
  -- The bytes hold the digits of the number in base 64.
  have upper (k : Nat) : k / 4096 = k / 64 / 64 := (Nat.div_div_eq_div_mul k 64 64).symm
  have top (k : Nat) : k / 262144 = k / 64 / 64 / 64 := by
    rw [Nat.div_div_eq_div_mul, Nat.div_div_eq_div_mul]
  dsimp only
  split_ifs <;>
    simp only [List.cons_append, List.nil_append, List.cons_lt_cons_iff, UInt8.lt_iff_toNat_lt,
      ← UInt8.toNat_inj, UInt8.toNat_ofNat', Nat.reducePow, upper, top] <;>
    omega

theorem flatMap_utf8EncodeChar_lt {a b : List Char} (less : a < b) :
    a.flatMap String.utf8EncodeChar < b.flatMap String.utf8EncodeChar := by
  induction b generalizing a with
  | nil => exact absurd less (List.not_lt_nil a)
  | cons d b ih =>
    rw [List.flatMap_cons]
    cases a with
    | nil =>
      have some := String.length_utf8EncodeChar d ▸ d.utf8Size_pos
      obtain ⟨first, rest, cons⟩ := List.exists_cons_of_length_pos some
      rw [cons]
      exact List.nil_lt_cons first _
    | cons c a =>
      rw [List.flatMap_cons]
      rcases List.cons_lt_cons_iff.1 less with first | ⟨rfl, rest⟩
      · exact utf8EncodeChar_append_lt first _ _
      · exact List.append_left_lt (ih rest)

theorem bytes_lt {a b : String} (less : a < b) : bytes a < bytes b := by
  rw [bytes_eq, bytes_eq]
  exact flatMap_utf8EncodeChar_lt less

/-- Texts stand in the order of their bytes. -/
theorem bytes_le_iff {a b : String} : bytes a ≤ bytes b ↔ a ≤ b := by
  constructor
  · intro le
    rw [← String.not_lt]
    intro less
    exact List.not_lt.2 le (bytes_lt less)
  · intro le
    rw [← List.not_lt]
    intro less
    by_cases same : a = b
    · rw [same] at less
      exact List.lt_irrefl _ less
    · have strictly : a < b := by
        rw [← String.not_le]
        intro back
        exact same (String.le_antisymm le back)
      exact List.lt_asymm (bytes_lt strictly) less

end Stepwise.Text
