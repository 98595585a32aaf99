import Stepwise.Proofs.Decimal.Integer

/-!
# The order of doubles

A finite double is an integer times the least positive double: these are its `units`. Two finite
doubles stand in the order of their units (`lt_iff_units`, `beq_iff_units`), since the one with
the greater exponent has all of its 53 digits. For doubles that are integers, this is the order of
the integers.
-/

namespace Stepwise.Decimal

open Float.Model Float.Model.UnpackedFloat

/-! ## Fields -/

theorem unpackMantissa_toNat (bits : BitVec 64) :
    (@unpackMantissa .binary64 bits).toNat = bits.toNat % leadingBit := by
  simp [unpackMantissa, BitVec.extractLsb, BitVec.extractLsb'_toNat, leadingBit]

theorem unpackSign_toNat (bits : BitVec 64) :
    (@unpackSign .binary64 bits).toNat = bits.toNat / signedBound := by
  have bound := bits.isLt
  simp only [unpackSign, BitVec.extractLsb, BitVec.toNat_cast, BitVec.extractLsb'_toNat,
    Nat.shiftRight_eq_div_pow, signedBound]
  omega

/-- The sign of a number, as it is packed. -/
def signOf (negative : Bool) : Sign := if negative then .negative else .positive

theorem signOf_unpackSign (bits : BitVec 64) :
    Sign.ofBitVec (@unpackSign .binary64 bits) = signOf (bits.toNat / signedBound == 1) := by
  have positive : @unpackSign .binary64 bits = 0#1 ↔ (@unpackSign .binary64 bits).toNat = 0 := by
    rw [← BitVec.toNat_inj]
    rfl
  have bound := (@unpackSign .binary64 bits).isLt
  rw [Sign.ofBitVec, signOf, if_congr positive rfl rfl, ← unpackSign_toNat]
  split <;> simp <;> omega

theorem finite_congr {s : Sign} {m m' : Nat} {e e' : Int} {h : 0 < m} {h' : 0 < m'}
    (mantissa : m = m') (exponent : e = e') :
    UnpackedFloat.finite s m e h = .finite s m' e' h' := by
  subst mantissa exponent
  rfl

/-- A finite double is taken apart in the same way by the model of doubles. -/
theorem unpack_of_ofFloat? {x : Float} {b : Binary} (apart : Binary.ofFloat? x = some b) :
    x.toModel.unpack =
      if h : 0 < b.mantissa then .finite (signOf b.negative) b.mantissa b.exponent h
      else .zero (signOf b.negative) := by
  have toNat : x.toBits.toNat = x.toModel.toBits.toBitVec.toNat := rfl
  unfold Binary.ofFloat? at apart
  simp only [toNat] at apart
  unfold Float.Model.unpack UnpackedFloat.unpack
  dsimp only
  generalize x.toModel.toBits.toBitVec = bits at *
  have bias : (Format.binary64.exponentBias : Int) + (52 : Nat) = 1075 := by decide
  have full : @unpackExponent .binary64 bits = -1#11 ↔
      (@unpackExponent .binary64 bits).toNat = 2047 := by
    rw [← BitVec.toNat_inj]
    rfl
  have none : @unpackExponent .binary64 bits = 0#11 ↔
      (@unpackExponent .binary64 bits).toNat = 0 := by
    rw [← BitVec.toNat_inj]
    rfl
  have empty : @unpackMantissa .binary64 bits = 0#52 ↔
      (@unpackMantissa .binary64 bits).toNat = 0 := by
    rw [← BitVec.toNat_inj]
    rfl
  have leading : (1#1 ++ @unpackMantissa .binary64 bits).toNat =
      leadingBit + (@unpackMantissa .binary64 bits).toNat := by
    rw [BitVec.toNat_append, ← Nat.shiftLeft_add_eq_or_of_lt (BitVec.isLt _)]
    rfl
  rw [← unpackExponent_toNat, ← unpackMantissa_toNat] at apart
  simp only [signOf_unpackSign, bias]
  split at apart
  · cases apart
  next less =>
  rw [if_neg (mt full.1 less)]
  split at apart
  · next zero =>
    cases apart
    rw [if_pos (none.2 zero)]
    by_cases nothing : (@unpackMantissa .binary64 bits).toNat = 0
    · rw [dif_pos (empty.2 nothing), dif_neg (by simp only [nothing]; decide)]
    · rw [dif_neg (mt empty.1 nothing), dif_pos (Nat.pos_of_ne_zero nothing)]
      exact finite_congr rfl (by rw [zero]; rfl)
  · next some =>
    cases apart
    rw [if_neg (mt none.1 some), dif_pos (Nat.add_pos_left (by decide) _)]
    refine finite_congr leading ?_
    simp only [leastExponent, Int.ofNat_eq_natCast]
    omega

/-! ## Units -/

/-- How many of the least positive doubles a finite double is, without its sign. -/
def Binary.magnitude (b : Binary) : Nat := b.mantissa * 2 ^ (b.exponent - leastExponent).toNat

/-- What a finite double is a multiple of the least positive double by. -/
def Binary.units (b : Binary) : Int := if b.negative then -b.magnitude else b.magnitude

/-- The digits of a finite double: 53, and fewer only at the least exponent. -/
structure Binary.Canonical (b : Binary) : Prop where
  most : b.mantissa < 2 * leadingBit
  least : leastExponent ≤ b.exponent
  full : leastExponent < b.exponent → leadingBit ≤ b.mantissa

theorem canonical_of_ofFloat? {x : Float} {b : Binary} (apart : Binary.ofFloat? x = some b) :
    b.Canonical := by
  unfold Binary.ofFloat? at apart
  have fraction : x.toBits.toNat % leadingBit < leadingBit := Nat.mod_lt _ (by decide)
  dsimp only at apart
  split at apart
  · cases apart
  split at apart
  · cases apart
    exact ⟨by dsimp only; omega, Int.le_refl _, fun less => absurd less (Int.lt_irrefl _)⟩
  · cases apart
    exact ⟨by dsimp only; omega, by simp only [Int.ofNat_eq_natCast]; omega,
      fun _ => Nat.le_add_right _ _⟩

theorem compare_congr {α β : Type} [LinearOrder α] [LinearOrder β] {a b : α} {c d : β}
    (less : a < b ↔ c < d) (same : a = b ↔ c = d) : compare a b = compare c d := by
  rcases lt_trichotomy a b with lt | eq | gt
  · rw [compare_lt_iff_lt.2 lt, compare_lt_iff_lt.2 (less.1 lt)]
  · rw [compare_eq_iff_eq.2 eq, compare_eq_iff_eq.2 (same.1 eq)]
  · have greater : d < c :=
      lt_of_le_of_ne (not_lt.1 (mt less.2 gt.not_gt)) fun eq => gt.ne (same.2 eq.symm).symm
    rw [compare_gt_iff_gt.2 gt, compare_gt_iff_gt.2 greater]

theorem magnitude_lt {b c : Binary} (h : b.Canonical) (h' : c.Canonical)
    (less : b.exponent < c.exponent) : b.magnitude < c.magnitude := by
  have least := h.least
  calc b.magnitude < 2 * leadingBit * 2 ^ (b.exponent - leastExponent).toNat :=
        Nat.mul_lt_mul_of_pos_right h.most (Nat.two_pow_pos _)
    _ = leadingBit * 2 ^ ((b.exponent - leastExponent).toNat + 1) := by ring
    _ ≤ leadingBit * 2 ^ (c.exponent - leastExponent).toNat :=
        Nat.mul_le_mul_left _ (Nat.pow_le_pow_right (by decide) (by omega))
    _ ≤ c.magnitude := Nat.mul_le_mul_right _ (h'.full (by omega))

/-- Exponents decide, then the digits. -/
theorem compare_magnitude {b c : Binary} (h : b.Canonical) (h' : c.Canonical) :
    (compare b.exponent c.exponent).then (compare b.mantissa c.mantissa) =
      compare b.magnitude c.magnitude := by
  rcases lt_trichotomy b.exponent c.exponent with lt | eq | gt
  · rw [compare_lt_iff_lt.2 lt, compare_lt_iff_lt.2 (magnitude_lt h h' lt)]
    rfl
  · rw [compare_eq_iff_eq.2 eq, Binary.magnitude, Binary.magnitude, eq]
    have positive := Nat.two_pow_pos (c.exponent - leastExponent).toNat
    exact compare_congr (Nat.mul_lt_mul_right positive).symm (Nat.mul_right_cancel_iff positive).symm
  · rw [compare_gt_iff_gt.2 gt, compare_gt_iff_gt.2 (magnitude_lt h' h gt)]
    rfl

theorem magnitude_pos {b : Binary} (some : 0 < b.mantissa) : 0 < b.magnitude :=
  Nat.mul_pos some (Nat.two_pow_pos _)

theorem magnitude_eq_zero {b : Binary} (none : ¬0 < b.mantissa) : b.magnitude = 0 := by
  rw [Binary.magnitude, Nat.eq_zero_of_not_pos none, Nat.zero_mul]

/-- Two finite doubles are compared as their units. -/
theorem compare_units {x y : Float} {b c : Binary} (apart : Binary.ofFloat? x = some b)
    (apart' : Binary.ofFloat? y = some c) :
    x.toModel.compare y.toModel = some (compare b.units c.units) := by
  have digits := compare_magnitude (canonical_of_ofFloat? apart) (canonical_of_ofFloat? apart')
  have upward : compare b.magnitude c.magnitude = compare (b.magnitude : Int) c.magnitude :=
    compare_congr Int.ofNat_lt.symm Int.ofNat_inj.symm
  have downward : (compare b.magnitude c.magnitude).swap =
      compare (-b.magnitude : Int) (-c.magnitude) := by
    rw [← Std.OrientedCmp.eq_swap]
    exact compare_congr (by omega) (by omega)
  rw [Float.Model.compare, unpack_of_ofFloat? apart, unpack_of_ofFloat? apart', Binary.units,
    Binary.units]
  -- the signs decide, unless both doubles are on the same side of zero
  by_cases left : 0 < b.mantissa <;> by_cases right : 0 < c.mantissa
  · have positive := magnitude_pos left
    have positive' := magnitude_pos right
    rw [dif_pos left, dif_pos right]
    cases b.negative <;> cases c.negative <;> simp only [if_true, if_false, Bool.false_eq_true]
    · exact congrArg some (digits.trans upward)
    · exact congrArg some (compare_gt_iff_gt.2 (by omega)).symm
    · exact congrArg some (compare_lt_iff_lt.2 (by omega)).symm
    · exact congrArg some ((congrArg Ordering.swap digits).trans downward)
  · have positive := magnitude_pos left
    rw [dif_pos left, dif_neg right, magnitude_eq_zero right]
    cases b.negative <;> cases c.negative <;> simp only [if_true, if_false, Bool.false_eq_true]
    case false.false | false.true => exact congrArg some (compare_gt_iff_gt.2 (by omega)).symm
    case true.false | true.true => exact congrArg some (compare_lt_iff_lt.2 (by omega)).symm
  · have positive := magnitude_pos right
    rw [dif_neg left, dif_pos right, magnitude_eq_zero left]
    cases b.negative <;> cases c.negative <;> simp only [if_true, if_false, Bool.false_eq_true]
    case false.false | true.false => exact congrArg some (compare_lt_iff_lt.2 (by omega)).symm
    case false.true | true.true => exact congrArg some (compare_gt_iff_gt.2 (by omega)).symm
  · rw [dif_neg left, dif_neg right, magnitude_eq_zero left, magnitude_eq_zero right]
    cases b.negative <;> cases c.negative <;> rfl

theorem lt_iff_units {x y : Float} {b c : Binary} (apart : Binary.ofFloat? x = some b)
    (apart' : Binary.ofFloat? y = some c) : x < y ↔ b.units < c.units := by
  have compared := compare_units apart apart'
  have unfolded : x < y ↔ (x.toModel.compare y.toModel == some .lt) = true := decide_eq_true_iff
  rw [unfolded, compared, beq_iff_eq, Option.some.injEq, compare_lt_iff_lt]

theorem beq_iff_units {x y : Float} {b c : Binary} (apart : Binary.ofFloat? x = some b)
    (apart' : Binary.ofFloat? y = some c) : (x == y) = true ↔ b.units = c.units := by
  have compared := compare_units apart apart'
  have unfolded : (x == y) = (x.toModel.compare y.toModel == some .eq) := rfl
  rw [unfolded, compared, beq_iff_eq, Option.some.injEq, compare_eq_iff_eq]

/-! ## Integers -/

/-- A double that is an integer has the units of one for each. -/
theorem units_of_integer? {x : Float} {n : Int} (integer : integer? x = some n) :
    ∃ b, Binary.ofFloat? x = some b ∧ b.units = n * 2 ^ leastExponent.natAbs := by
  unfold integer? at integer
  split at integer
  · cases integer
  next b apart =>
  refine ⟨b, apart, ?_⟩
  have least := (canonical_of_ofFloat? apart).least
  dsimp only at integer
  split at integer
  · next whole =>
    have places : (-b.exponent).toNat + (b.exponent - leastExponent).toNat =
        b.exponent.toNat + leastExponent.natAbs := by
      rw [leastExponent] at least ⊢
      omega
    have magnitude : b.magnitude =
        b.mantissa / Nat.pow 2 (-b.exponent).toNat * Nat.pow 2 b.exponent.toNat *
          2 ^ leastExponent.natAbs := by
      simp only [Nat.pow_eq] at whole ⊢
      rw [Nat.mul_assoc, ← Nat.pow_add, ← places, Nat.pow_add, ← Nat.mul_assoc,
        Nat.div_mul_cancel (Nat.dvd_of_mod_eq_zero whole), Binary.magnitude]
    cases integer
    rw [Binary.units, magnitude]
    split <;> push_cast <;> ring
  · cases integer

theorem lt_iff_of_integer? {x y : Float} {n m : Int} (left : integer? x = some n)
    (right : integer? y = some m) : x < y ↔ n < m := by
  obtain ⟨b, apart, units⟩ := units_of_integer? left
  obtain ⟨c, apart', units'⟩ := units_of_integer? right
  rw [lt_iff_units apart apart', units, units']
  exact Int.mul_lt_mul_right (by positivity)

theorem beq_iff_of_integer? {x y : Float} {n m : Int} (left : integer? x = some n)
    (right : integer? y = some m) : (x == y) = true ↔ n = m := by
  obtain ⟨b, apart, units⟩ := units_of_integer? left
  obtain ⟨c, apart', units'⟩ := units_of_integer? right
  rw [beq_iff_units apart apart', units, units']
  exact Int.mul_eq_mul_right_iff (by positivity)

/-! ## The integer nearest to an integer -/

/-- The sign of a double is a bit of its own. -/
theorem ofFloat?_signed {bits : Nat} (finite : bits < 2047 * leadingBit) {b : Binary}
    (apart : Binary.ofFloat? (Float.ofBits (UInt64.ofNat bits)) = some b) :
    b.negative = false ∧
      Binary.ofFloat? (Float.ofBits (UInt64.ofNat (signedBound + bits))) =
        some { b with negative := true } := by
  have small : bits < UInt64.size := by
    simp only [leadingBit, UInt64.size] at finite ⊢
    omega
  have small' : signedBound + bits < UInt64.size := by
    simp only [leadingBit, signedBound, UInt64.size] at finite ⊢
    omega
  have same : (UInt64.ofNat bits).toNat = bits := UInt64.toNat_ofNat_of_lt' small
  have same' : (UInt64.ofNat (signedBound + bits)).toNat = signedBound + bits :=
    UInt64.toNat_ofNat_of_lt' small'
  have field : (signedBound + bits) / leadingBit % 2048 = bits / leadingBit % 2048 := by
    simp only [signedBound, leadingBit]
    omega
  have fraction : (signedBound + bits) % leadingBit = bits % leadingBit := by
    simp only [signedBound, leadingBit]
    omega
  have lower : bits / leadingBit % 2048 ≠ 2047 := by
    simp only [leadingBit] at finite ⊢
    omega
  have positive : (bits / signedBound == 1) = false := by
    simp only [leadingBit, signedBound, beq_eq_false_iff_ne] at finite ⊢
    omega
  have negative : ((signedBound + bits) / signedBound == 1) = true := by
    simp only [leadingBit, signedBound, beq_iff_eq] at finite ⊢
    omega
  have kept : (Float.ofBits (UInt64.ofNat bits)).toBits = UInt64.ofNat bits :=
    toBits_ofBits (by rwa [same])
  have kept' : (Float.ofBits (UInt64.ofNat (signedBound + bits))).toBits =
      UInt64.ofNat (signedBound + bits) := toBits_ofBits (by rwa [same', field])
  simp only [Binary.ofFloat?, kept, same, positive] at apart
  simp only [Binary.ofFloat?, kept', same', field, fraction, negative]
  rw [if_neg lower] at apart ⊢
  split at apart <;> cases apart
  · next none => exact ⟨rfl, if_pos none⟩
  · next some => exact ⟨rfl, if_neg some⟩

theorem exists_nearest_bits (num den : Nat) : ∃ bits ≤ 2047 * leadingBit,
    nearest false num den = Float.ofBits (UInt64.ofNat bits) ∧
      nearest true num den = Float.ofBits (UInt64.ofNat (signedBound + bits)) := by
  by_cases zero : num = 0
  · exact ⟨0, Nat.zero_le _, by simp [nearest, zero], by simp [nearest, zero]⟩
  · simp only [nearest, if_neg zero, if_true, Bool.false_eq_true, if_false, Nat.zero_add]
    exact ⟨_, Nat.min_le_right _ _, rfl, rfl⟩

/-- Rounding does not look at the sign. -/
theorem integer?_nearest_signed {num den : Nat} {n : Int}
    (integer : integer? (nearest false num den) = some n) :
    integer? (nearest true num den) = some (-n) := by
  obtain ⟨bits, most, positive, negative⟩ := exists_nearest_bits num den
  rw [positive] at integer
  obtain ⟨b, apart, -⟩ := units_of_integer? integer
  have finite : bits < 2047 * leadingBit := by
    refine lt_of_le_of_ne most fun infinite => ?_
    have none : Binary.ofFloat? (Float.ofBits (UInt64.ofNat (2047 * leadingBit))) = none := by
      decide +kernel
    rw [infinite, none] at apart
    cases apart
  obtain ⟨sign, apart'⟩ := ofFloat?_signed finite apart
  unfold integer? at integer ⊢
  rw [apart] at integer
  rw [negative, apart']
  dsimp only at integer ⊢
  rw [sign] at integer
  split at integer
  · next whole =>
    cases integer
    rw [if_pos whole]
    rfl
  · cases integer

/-- The integer with at most 53 significant binary digits that is nearest to an integer, and the
even one of two. -/
def roundedNat (n : Nat) : Nat := roundHalfEven n (2 ^ (n.log2 - 52)) * 2 ^ (n.log2 - 52)

/-- An integer rounded to what a float holds, on either side of nought. -/
def rounded (n : Int) : Int := n.sign * roundedNat n.natAbs

theorem integer?_nearest {n : Nat} (bound : n < 2 ^ 64) :
    integer? (nearest false n 1) = some (roundedNat n : Int) := by
  rcases Nat.eq_zero_or_pos n with rfl | positive
  · decide +kernel
  rcases Nat.le_total n.log2 52 with small | large
  · rw [integer?_nearest_of_small positive small, roundedNat, Nat.sub_eq_zero_of_le small]
    simp [roundHalfEven, Nat.mod_one]
  · obtain ⟨g, place⟩ : ∃ g, n.log2 = 52 + g := Nat.exists_eq_add_of_le large
    rw [integer?_nearest_of_large place (log2_lt_of_lt bound), roundedNat,
      show n.log2 - 52 = g by omega]

theorem roundedNat_of_fits {n : Nat} (fits : FitsDouble n) : roundedNat n = n :=
  (roundHalfEven_eq_iff (Nat.two_pow_pos _)).2 fits

theorem rounded_of_nonneg {n : Int} (sign : 0 ≤ n) : rounded n = roundedNat n.natAbs := by
  rcases Int.le_iff_lt_or_eq.1 sign with positive | rfl
  · rw [rounded, Int.sign_eq_one_of_pos positive, Int.one_mul]
  · rfl

theorem rounded_of_nonpos {n : Int} (sign : n ≤ 0) : rounded n = -roundedNat n.natAbs := by
  rcases Int.le_iff_lt_or_eq.1 sign with negative | rfl
  · rw [rounded, Int.sign_eq_neg_one_of_neg negative, Int.neg_one_mul]
  · rfl

theorem integer?_nearest_int {n : Int} (bound : n.natAbs < 2 ^ 64) :
    integer? (nearest (n < 0) n.natAbs 1) = some (rounded n) := by
  have magnitude := integer?_nearest bound
  by_cases negative : n < 0
  · rw [decide_eq_true negative, integer?_nearest_signed magnitude, rounded_of_nonpos negative.le]
  · rw [decide_eq_false negative, magnitude, rounded_of_nonneg (not_lt.1 negative)]

theorem roundHalfEven_mono {n m : Nat} (le : n ≤ m) (den : Nat) :
    roundHalfEven n den ≤ roundHalfEven m den := by
  rcases Nat.lt_or_eq_of_le (Nat.div_le_div_right (c := den) le) with less | same
  · calc roundHalfEven n den ≤ n / den + 1 := (roundHalfEven_bounds n den).2
      _ ≤ m / den := less
      _ ≤ roundHalfEven m den := (roundHalfEven_bounds m den).1
  · have rest : n % den ≤ m % den := by
      have split := Nat.div_add_mod n den
      have split' := Nat.div_add_mod m den
      rw [same] at split
      omega
    unfold roundHalfEven
    rw [same]
    dsimp only
    split_ifs <;> omega

/-- Rounding stays between the two powers of two around an integer. -/
theorem roundedNat_bounds {n : Nat} (some : n ≠ 0) :
    2 ^ n.log2 ≤ roundedNat n ∧ roundedNat n ≤ 2 ^ (n.log2 + 1) := by
  obtain ⟨least, most⟩ := roundHalfEven_bounds n (2 ^ (n.log2 - 52))
  have below : n < 2 ^ (n.log2 + 1) := Nat.lt_log2_self
  have above : 2 ^ n.log2 ≤ n := Nat.log2_self_le some
  have whole : 2 ^ n.log2 = 2 ^ (n.log2 - (n.log2 - 52)) * 2 ^ (n.log2 - 52) := by
    rw [← Nat.pow_add]
    congr 1
    omega
  have positive := Nat.two_pow_pos (n.log2 - 52)
  have least' : 2 ^ (n.log2 - (n.log2 - 52)) ≤ n / 2 ^ (n.log2 - 52) := by
    rwa [Nat.le_div_iff_mul_le positive, ← whole]
  have most' : n / 2 ^ (n.log2 - 52) < 2 * 2 ^ (n.log2 - (n.log2 - 52)) := by
    rw [Nat.div_lt_iff_lt_mul positive, Nat.mul_assoc, ← whole]
    rwa [Nat.pow_succ, Nat.mul_comm] at below
  constructor
  · rw [whole]
    exact Nat.mul_le_mul_right _ (least'.trans least)
  · rw [Nat.pow_succ, Nat.mul_comm, whole, ← Nat.mul_assoc]
    exact Nat.mul_le_mul_right _ (most.trans most')

theorem roundedNat_mono {n m : Nat} (le : n ≤ m) : roundedNat n ≤ roundedNat m := by
  rcases Nat.eq_zero_or_pos n with rfl | positive
  · simp [roundedNat, roundHalfEven]
  have places : n.log2 ≤ m.log2 := (Nat.le_log2 (by omega)).2 ((Nat.log2_self_le (by omega)).trans le)
  rcases Nat.lt_or_eq_of_le places with less | same
  · calc roundedNat n ≤ 2 ^ (n.log2 + 1) := (roundedNat_bounds (by omega)).2
      _ ≤ 2 ^ m.log2 := Nat.pow_le_pow_right (by decide) less
      _ ≤ roundedNat m := (roundedNat_bounds (by omega)).1
  · rw [roundedNat, roundedNat, same]
    exact Nat.mul_le_mul_right _ (roundHalfEven_mono le _)

theorem rounded_mono {n m : Int} (le : n ≤ m) : rounded n ≤ rounded m := by
  rcases Int.le_total 0 n with sign | sign
  · rw [rounded_of_nonneg sign, rounded_of_nonneg (sign.trans le)]
    exact Int.ofNat_le.2 (roundedNat_mono (by omega))
  rw [rounded_of_nonpos sign]
  rcases Int.le_total 0 m with sign' | sign'
  · rw [rounded_of_nonneg sign']
    omega
  · rw [rounded_of_nonpos sign']
    exact Int.neg_le_neg (Int.ofNat_le.2 (roundedNat_mono (by omega)))

end Stepwise.Decimal
