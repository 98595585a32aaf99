import Mathlib
import Stepwise.Decimal.Binary

/-!
# Integers through doubles

A non-negative integer below `2 ^ 64` that is read as a double and taken as an integer again is
the nearest integer with at most 53 significant bits, and the even one of two. So it comes back
as it was exactly when its binary digits past the first 53 are zero.
-/

namespace Stepwise.Decimal

/-! ## Taking apart what was put together -/

theorem unpackExponent_toNat (bits : BitVec 64) :
    (@Float.Model.UnpackedFloat.unpackExponent .binary64 bits).toNat
      = bits.toNat / leadingBit % 2048 := by
  simp [Float.Model.UnpackedFloat.unpackExponent, BitVec.extractLsb, BitVec.extractLsb'_toNat,
    Nat.shiftRight_eq_div_pow, leadingBit]

/-- The bits of a double other than a not-a-number are those it was made of. -/
theorem toBits_ofBits {bits : UInt64} (h : bits.toNat / leadingBit % 2048 ≠ 2047) :
    (Float.ofBits bits).toBits = bits := by
  have valid : Float.Model.Format.binary64.Valid bits.toBitVec := by
    refine ⟨fun all => absurd ?_ h⟩
    have := congrArg BitVec.toNat all
    rw [unpackExponent_toNat] at this
    exact this
  exact UInt64.toBitVec_inj.1 (Float.Model.UnpackedFloat.pack_unpack_of_valid valid)

/-- A double that is made of an integer with 53 bits and of a place among the exponents. -/
theorem ofFloat?_ofBits {m k : Nat} (least : leadingBit ≤ m) (most : m < 2 * leadingBit)
    (range : k < 2046) :
    Binary.ofFloat? (Float.ofBits (UInt64.ofNat (m + k * leadingBit)))
      = some ⟨false, m, leastExponent + k⟩ := by
  have fits : m + k * leadingBit < UInt64.size := by
    simp only [leadingBit, UInt64.size] at most ⊢
    omega
  have bits : (UInt64.ofNat (m + k * leadingBit)).toNat = m + k * leadingBit :=
    UInt64.toNat_ofNat_of_lt' fits
  have field : (m + k * leadingBit) / leadingBit % 2048 = k + 1 := by
    simp only [leadingBit] at least most ⊢
    omega
  have fraction : (m + k * leadingBit) % leadingBit = m - leadingBit := by
    simp only [leadingBit] at least most ⊢
    omega
  have sign : (m + k * leadingBit) / signedBound = 0 := by
    simp only [leadingBit, signedBound] at most ⊢
    omega
  have same : (Float.ofBits (UInt64.ofNat (m + k * leadingBit))).toBits
      = UInt64.ofNat (m + k * leadingBit) := toBits_ofBits (by rw [bits, field]; omega)
  unfold Binary.ofFloat?
  simp only [same, bits, field, fraction, sign]
  rw [if_neg (by omega), if_neg (by omega)]
  simp
  omega

/-! ## The double nearest to an integer -/

theorem log2_lt_of_lt {n : Nat} (h : n < 2 ^ 64) : n.log2 < 64 := by
  cases n with
  | zero => simp
  | succ n => exact (Nat.log2_lt (Nat.succ_ne_zero n)).2 h

/-- The double nearest to an integer: its first 53 binary digits, with a rounding that may carry,
and the place of the last of them among the exponents. -/
theorem nearest_eq {n k : Nat} (positive : 0 < n) (fits : n.log2 < 64)
    (place : n.log2 + 1022 = k)
    (least : leadingBit ≤ roundShifted n 1 (52 - n.log2))
    (most : roundShifted n 1 (52 - n.log2) ≤ 2 * leadingBit) :
    nearest false n 1
      = Float.ofBits (UInt64.ofNat (roundShifted n 1 (52 - n.log2) + k * leadingBit)) := by
  have shift : -((n.log2 : Int) - (Nat.log2 1 : Int) - 52) = 52 - n.log2 := by
    rw [show Nat.log2 1 = 0 from rfl]
    omega
  have exponent : max leastExponent ((n.log2 : Int) - (Nat.log2 1 : Int) - 52)
      = (n.log2 : Int) - (Nat.log2 1 : Int) - 52 := by
    rw [show Nat.log2 1 = 0 from rfl, leastExponent]
    omega
  have field : ((n.log2 : Int) - (Nat.log2 1 : Int) - 52 - leastExponent).toNat = k := by
    rw [show Nat.log2 1 = 0 from rfl, leastExponent]
    omega
  unfold nearest
  simp only [if_neg (Nat.pos_iff_ne_zero.1 positive), shift, if_neg (Nat.not_lt.2 least),
    exponent, field]
  congr 2
  simp only [leadingBit] at most ⊢
  simp only [Bool.false_eq_true, if_false]
  omega

theorem leadingBit_eq : leadingBit = 2 ^ 52 := by norm_num [leadingBit]

/-- An integer below `2 ^ 53` is a double. -/
theorem integer?_nearest_of_small {n : Nat} (positive : 0 < n) (small : n.log2 ≤ 52) :
    integer? (nearest false n 1) = some (n : Int) := by
  obtain ⟨d, hd⟩ : ∃ d, n.log2 + d = 52 := ⟨52 - n.log2, by omega⟩
  have least : leadingBit ≤ n * 2 ^ d := by
    calc leadingBit = 2 ^ n.log2 * 2 ^ d := by rw [← Nat.pow_add, hd, leadingBit_eq]
      _ ≤ n * 2 ^ d := Nat.mul_le_mul_right _ (Nat.log2_self_le (by omega))
  have most : n * 2 ^ d < 2 * leadingBit := by
    calc n * 2 ^ d < 2 ^ (n.log2 + 1) * 2 ^ d :=
          Nat.mul_lt_mul_of_pos_right Nat.lt_log2_self (Nat.two_pow_pos d)
      _ = 2 ^ 53 := by rw [← Nat.pow_add, show n.log2 + 1 + d = 53 by omega]
      _ = 2 * leadingBit := by norm_num [leadingBit]
  have rounded : roundShifted n 1 (52 - n.log2) = n * 2 ^ d := by
    rw [show (52 - n.log2 : Int) = d by omega]
    simp [roundShifted, roundHalfEven, Nat.mod_one]
  have made := nearest_eq positive (by omega) rfl (by rw [rounded]; exact least)
    (by rw [rounded]; exact most.le)
  have apart := ofFloat?_ofBits least most (show n.log2 + 1022 < 2046 by omega)
  have exponent : leastExponent + ((n.log2 + 1022 : Nat) : Int) = -d := by
    rw [leastExponent]
    omega
  rw [rounded] at made
  rw [exponent, ← made] at apart
  simp [integer?, apart]

/-- A double whose exponent is not negative is an integer. -/
theorem integer?_of_binary {x : Float} {m e : Nat}
    (apart : Binary.ofFloat? x = some ⟨false, m, (e : Int)⟩) :
    integer? x = some ((m * 2 ^ e : Nat) : Int) := by
  have unit : Nat.pow 2 (-(e : Int)).toNat = 1 := by
    rw [show (-(e : Int)).toNat = 0 by omega, Nat.pow_eq, Nat.pow_zero]
  simp only [integer?, apart, unit, Nat.mod_one, if_true, Nat.div_one, Int.toNat_natCast,
    Bool.false_eq_true, if_false, Nat.pow_eq]

/-- A quotient that is rounded lies at the quotient or one above. -/
theorem roundHalfEven_bounds (num den : Nat) :
    num / den ≤ roundHalfEven num den ∧ roundHalfEven num den ≤ num / den + 1 := by
  unfold roundHalfEven
  dsimp only
  split
  · omega
  · split <;> omega

/-- An integer from `2 ^ 53` on becomes the nearest multiple of the place of its 53rd digit. -/
theorem integer?_nearest_of_large {n g : Nat} (large : n.log2 = 52 + g) (fits : n.log2 < 64) :
    integer? (nearest false n 1) = some ((roundHalfEven n (2 ^ g) * 2 ^ g : Nat) : Int) := by
  have nonzero : n ≠ 0 := by
    rintro rfl
    rw [Nat.log2_zero] at large
    omega
  have lower : leadingBit ≤ n / 2 ^ g := by
    rw [Nat.le_div_iff_mul_le (Nat.two_pow_pos g)]
    calc leadingBit * 2 ^ g = 2 ^ n.log2 := by rw [large, Nat.pow_add, leadingBit_eq]
      _ ≤ n := Nat.log2_self_le nonzero
  have upper : n / 2 ^ g < 2 * leadingBit := by
    rw [Nat.div_lt_iff_lt_mul (Nat.two_pow_pos g)]
    calc n < 2 ^ (n.log2 + 1) := Nat.lt_log2_self
      _ = 2 ^ 53 * 2 ^ g := by rw [large, show 52 + g + 1 = 53 + g by omega, Nat.pow_add]
      _ = 2 * leadingBit * 2 ^ g := by norm_num [leadingBit]
  have rounded : roundShifted n 1 (52 - n.log2) = roundHalfEven n (2 ^ g) := by
    rw [large]
    cases g with
    | zero => simp [roundShifted]
    | succ g =>
      rw [roundShifted, if_neg (by omega),
        show (-(52 - ((52 + (g + 1) : Nat) : Int))).toNat = g + 1 by omega]
      simp
  obtain ⟨least, most⟩ := roundHalfEven_bounds n (2 ^ g)
  have made := nearest_eq (Nat.pos_of_ne_zero nonzero) fits
    (show n.log2 + 1022 = g + 1074 by omega) (by rw [rounded]; omega) (by rw [rounded]; omega)
  rw [rounded] at made
  -- the rounding carries when all 53 digits are ones and the rest counts for more than a half
  by_cases carry : roundHalfEven n (2 ^ g) = 2 * leadingBit
  · have bits : leadingBit + (g + 1075) * leadingBit
        = roundHalfEven n (2 ^ g) + (g + 1074) * leadingBit := by
      rw [carry]
      ring
    have apart := ofFloat?_ofBits (Nat.le_refl leadingBit) (by decide)
      (show g + 1075 < 2046 by omega)
    have exponent : leastExponent + ((g + 1075 : Nat) : Int) = (g + 1 : Nat) := by
      rw [leastExponent]
      omega
    rw [bits, exponent, ← made] at apart
    have value : leadingBit * 2 ^ (g + 1) = 2 * leadingBit * 2 ^ g := by ring
    rw [carry, ← value]
    exact integer?_of_binary apart
  · have apart := ofFloat?_ofBits (show leadingBit ≤ roundHalfEven n (2 ^ g) by omega) (by omega)
      (show g + 1074 < 2046 by omega)
    have exponent : leastExponent + ((g + 1074 : Nat) : Int) = g := by
      rw [leastExponent]
      omega
    rw [exponent, ← made] at apart
    exact integer?_of_binary apart

/-! ## Which integers come back -/

/-- An integer whose binary digits past the first 53 are zero. -/
def FitsDouble (n : Nat) : Prop := 2 ^ (n.log2 - 52) ∣ n

instance (n : Nat) : Decidable (FitsDouble n) :=
  inferInstanceAs (Decidable (2 ^ (n.log2 - 52) ∣ n))

theorem roundHalfEven_eq_iff {n unit : Nat} (positive : 0 < unit) :
    roundHalfEven n unit * unit = n ↔ unit ∣ n := by
  constructor
  · intro same
    exact ⟨roundHalfEven n unit, by rw [Nat.mul_comm, same]⟩
  · rintro ⟨q, rfl⟩
    have quotient : unit * q / unit = q := Nat.mul_div_cancel_left q positive
    simp [roundHalfEven, quotient, positive, Nat.mul_comm]

/-- What a non-negative integer below `2 ^ 64` becomes by way of a double: itself, or an integer
near it when its digits do not fit. -/
theorem integer?_toFloat {n : Nat} (bound : n < 2 ^ 64) :
    ∃ m : Nat, integer? (toFloat false n 0) = some (m : Int) ∧ (m = n ↔ FitsDouble n) := by
  rcases Nat.eq_zero_or_pos n with rfl | positive
  · exact ⟨0, by decide +kernel, by decide⟩
  have fits := log2_lt_of_lt bound
  have same : toFloat false n 0 = nearest false n 1 := by
    simp only [toFloat]
    rw [if_neg (by omega)]
    simp
  rcases Nat.le_total n.log2 52 with small | large
  · refine ⟨n, by rw [same, integer?_nearest_of_small positive small], iff_of_true rfl ?_⟩
    rw [FitsDouble, Nat.sub_eq_zero_of_le small]
    exact Nat.one_dvd n
  · obtain ⟨g, hg⟩ : ∃ g, n.log2 = 52 + g := Nat.exists_eq_add_of_le large
    refine ⟨roundHalfEven n (2 ^ g) * 2 ^ g, by rw [same, integer?_nearest_of_large hg fits], ?_⟩
    rw [FitsDouble, show n.log2 - 52 = g by omega]
    exact roundHalfEven_eq_iff (Nat.two_pow_pos g)

end Stepwise.Decimal
