import Stepwise.Duration

/-!
# Sums and multiples of durations

A number of nanoseconds may be cut off at the greatest duration before sums, multiples and greatest
lengths are taken, or afterwards: the outcome is the same. `Words` are durations as they are held
in two words, with carries between them. Their operations give the greatest duration where a guard
finds that the seconds do not fit, and none of the steps that are not guarded overflows.
-/

namespace Stepwise.Duration

/-! ## Cutting off -/

theorem add_ofNanos (m n : Nat) : (ofNanos m).add (ofNanos n) = ofNanos (m + n) := by
  ext
  simp only [nanos_add, nanos_ofNanos]
  omega

theorem zero_add (d : Duration) : zero.add d = d := by
  ext
  simp [nanos_add, zero, Nat.min_eq_left d.nanos_le]

theorem longer_ofNanos (m n : Nat) : (ofNanos m).longer (ofNanos n) = ofNanos (max m n) := by
  ext
  simp only [nanos_longer, nanos_ofNanos]
  omega

theorem scale_ofNanos (m n : Nat) : (ofNanos m).scale n = ofNanos (m * n) := by
  ext
  simp only [nanos_scale, nanos_ofNanos]
  by_cases fits : m ≤ greatestNanos
  · rw [Nat.min_eq_left fits]
  · -- No times a length is no time, cut off or not; from once on, both are past the greatest one.
    cases n with
    | zero => rfl
    | succ k =>
      have whole : m ≤ m * (k + 1) := Nat.le_mul_of_pos_right m k.succ_pos
      have cut : greatestNanos ≤ greatestNanos * (k + 1) := Nat.le_mul_of_pos_right _ k.succ_pos
      rw [Nat.min_eq_right (by omega : greatestNanos ≤ m)]
      omega

/-! ## Words -/

/-- A number as a word of 64 bits, if it fits. -/
def word64? (n : Nat) : Option UInt64 := if n < UInt64.size then some (.ofNat n) else none

/-- A number as a word of 32 bits, if it fits. -/
def word32? (n : Nat) : Option UInt32 := if n < UInt32.size then some (.ofNat n) else none

theorem word64?_of_lt {n : Nat} (h : n < UInt64.size) : word64? n = some (.ofNat n) := if_pos h

theorem word64?_of_le {n : Nat} (h : UInt64.size ≤ n) : word64? n = none :=
  if_neg (Nat.not_lt.2 h)

theorem word32?_of_lt {n : Nat} (h : n < UInt32.size) : word32? n = some (.ofNat n) := if_pos h

/-- A duration in words: the whole seconds, and the nanoseconds past them. -/
structure Words where
  secs : UInt64
  nanos : UInt32
  nanos_lt : nanos.toNat < nanosPerSecond

namespace Words

/-- The duration that two words stand for. -/
def toDuration (w : Words) : Duration where
  nanos := w.secs.toNat * nanosPerSecond + w.nanos.toNat
  nanos_le := by
    have := w.secs.toNat_lt_size
    have := w.nanos_lt
    unfold greatestNanos UInt64.size nanosPerSecond at *
    omega

/-- No time. -/
def zero : Words := ⟨0, 0, by decide⟩

/-- The greatest duration. -/
def greatest : Words := ⟨18446744073709551615, 999999999, by decide⟩

/-- The words of a duration. -/
def ofDuration (d : Duration) : Words where
  secs := .ofNat d.secs
  nanos := .ofNat d.subsecNanos
  nanos_lt := by
    have below : d.subsecNanos < nanosPerSecond := Nat.mod_lt _ (by decide)
    rw [UInt32.toNat_ofNat_of_lt' (Nat.lt_trans below (by decide))]
    exact below

/-- Two words, if the second holds less than a second. -/
def make? (secs : UInt64) (nanos : UInt32) : Option Words :=
  if h : nanos.toNat < nanosPerSecond then some ⟨secs, nanos, h⟩ else none

/-- Seconds with a guard, and nanoseconds: the greatest duration if the seconds do not fit. -/
def guarded? (secs : Nat) (nanos : UInt32) : Option Words :=
  match word64? secs with
  | none => some greatest
  | some secs => make? secs nanos

/-- The sum, or the greatest duration if the seconds do not fit. There is no outcome if a step
that is not guarded overflows. -/
def add? (a b : Words) : Option Words :=
  match word64? (a.secs.toNat + b.secs.toNat) with
  | none => some greatest
  | some secs => do
    let nanos ← word32? (a.nanos.toNat + b.nanos.toNat)
    if nanos.toNat < nanosPerSecond then make? secs nanos
    else guarded? (secs.toNat + 1) (nanos - 1000000000)

/-- The multiple, or the greatest duration if the seconds do not fit. There is no outcome if a step
that is not guarded overflows. -/
def scale? (w : Words) (n : UInt32) : Option Words := do
  let total ← word64? (w.nanos.toNat * n.toNat)
  match word64? (w.secs.toNat * n.toNat) with
  | none => some greatest
  | some secs => guarded? (secs.toNat + (total / 1000000000).toNat) (total % 1000000000).toUInt32

/-- The longer one: that with more seconds, or of two with the same that with more nanoseconds. -/
def longer (a b : Words) : Words :=
  if b.secs < a.secs ∨ (b.secs = a.secs ∧ b.nanos < a.nanos) then a else b

theorem nanos_toDuration (w : Words) :
    w.toDuration.nanos = w.secs.toNat * nanosPerSecond + w.nanos.toNat := rfl

theorem toDuration_zero : zero.toDuration = .zero := rfl

@[simp] theorem toDuration_ofDuration (d : Duration) : (ofDuration d).toDuration = d := by
  have le := d.nanos_le
  have secs : (ofDuration d).secs.toNat = d.nanos / nanosPerSecond := by
    apply UInt64.toNat_ofNat_of_lt'
    unfold Duration.secs greatestNanos UInt64.size nanosPerSecond at *
    omega
  have nanos : (ofDuration d).nanos.toNat = d.nanos % nanosPerSecond :=
    UInt32.toNat_ofNat_of_lt' (Nat.lt_trans (Nat.mod_lt _ (by decide)) (by decide))
  ext
  rw [nanos_toDuration, secs, nanos, Nat.mul_comm, Nat.div_add_mod]

/-- Two words that stand for a duration. -/
theorem make?_eq {secs : UInt64} {nanos : UInt32} {d : Duration}
    (below : nanos.toNat < nanosPerSecond)
    (same : secs.toNat * nanosPerSecond + nanos.toNat = d.nanos) :
    (make? secs nanos).map toDuration = some d := by
  rw [make?, dif_pos below, Option.map_some]
  exact congrArg some (Duration.ext same)

/-- What a guard gives where the seconds are too many. -/
theorem greatest_eq {d : Duration} (h : greatestNanos ≤ d.nanos) :
    (some greatest).map toDuration = some d := by
  have full : greatest.toDuration.nanos = greatestNanos := by decide
  exact congrArg some (Duration.ext (full.trans (Nat.le_antisymm h d.nanos_le)))

theorem guarded?_eq {secs : Nat} {nanos : UInt32} {d : Duration}
    (below : nanos.toNat < nanosPerSecond)
    (same : d.nanos = min (secs * nanosPerSecond + nanos.toNat) greatestNanos) :
    (guarded? secs nanos).map toDuration = some d := by
  unfold guarded?
  by_cases fits : secs < UInt64.size
  · rw [word64?_of_lt fits]
    apply make?_eq below
    rw [same, UInt64.toNat_ofNat_of_lt' fits]
    unfold greatestNanos UInt64.size nanosPerSecond at *
    omega
  · rw [word64?_of_le (Nat.not_lt.1 fits)]
    apply greatest_eq
    unfold greatestNanos UInt64.size nanosPerSecond at *
    omega

/-- The sum of words stands for the sum of durations, and nothing overflows. -/
theorem add?_eq (a b : Words) :
    (a.add? b).map toDuration = some (a.toDuration.add b.toDuration) := by
  have sum : (a.toDuration.add b.toDuration).nanos =
      min ((a.secs.toNat + b.secs.toNat) * nanosPerSecond + (a.nanos.toNat + b.nanos.toNat))
        greatestNanos := by
    rw [nanos_add, nanos_toDuration, nanos_toDuration, Nat.add_mul, Nat.add_add_add_comm]
  have ha := a.nanos_lt
  have hb := b.nanos_lt
  have small : a.nanos.toNat + b.nanos.toNat < UInt32.size := by
    unfold nanosPerSecond UInt32.size at *
    omega
  have held := UInt32.toNat_ofNat_of_lt' small
  unfold add?
  by_cases fits : a.secs.toNat + b.secs.toNat < UInt64.size
  · have kept := UInt64.toNat_ofNat_of_lt' fits
    rw [word64?_of_lt fits, word32?_of_lt small]
    dsimp only [Option.bind_eq_bind, Option.bind_some]
    rw [held, kept]
    by_cases within : a.nanos.toNat + b.nanos.toNat < nanosPerSecond
    · rw [if_pos within]
      apply make?_eq (held.symm ▸ within)
      rw [sum, held, kept]
      unfold greatestNanos UInt64.size nanosPerSecond at *
      omega
    · rw [if_neg within]
      have carry : (1000000000 : UInt32) ≤ .ofNat (a.nanos.toNat + b.nanos.toNat) :=
        UInt32.le_iff_toNat_le.2 (held.symm ▸ Nat.not_lt.1 within)
      have rest : (UInt32.ofNat (a.nanos.toNat + b.nanos.toNat) - 1000000000).toNat =
          a.nanos.toNat + b.nanos.toNat - nanosPerSecond := by
        rw [UInt32.toNat_sub_of_le _ _ carry, held]
        rfl
      apply guarded?_eq (by omega)
      have same :
          (a.secs.toNat + b.secs.toNat) * nanosPerSecond + (a.nanos.toNat + b.nanos.toNat) =
            (a.secs.toNat + b.secs.toNat + 1) * nanosPerSecond +
              (a.nanos.toNat + b.nanos.toNat - nanosPerSecond) := by
        rw [Nat.add_one_mul]
        omega
      rw [sum, rest, same]
  · rw [word64?_of_le (Nat.not_lt.1 fits)]
    apply greatest_eq
    unfold greatestNanos UInt64.size nanosPerSecond at *
    omega

/-- The multiple of words stands for the multiple of a duration, and nothing overflows. -/
theorem scale?_eq (w : Words) (n : UInt32) :
    (w.scale? n).map toDuration = some (w.toDuration.scale n.toNat) := by
  have product : (w.toDuration.scale n.toNat).nanos =
      min (w.secs.toNat * n.toNat * nanosPerSecond + w.nanos.toNat * n.toNat) greatestNanos := by
    rw [nanos_scale, nanos_toDuration, Nat.add_mul, Nat.mul_right_comm]
  have small : w.nanos.toNat * n.toNat < UInt64.size :=
    Nat.lt_of_le_of_lt (Nat.mul_le_mul (Nat.le_of_lt w.nanos_lt) (Nat.le_of_lt n.toNat_lt_size))
      (by decide)
  have total := UInt64.toNat_ofNat_of_lt' small
  have extra : (UInt64.ofNat (w.nanos.toNat * n.toNat) / 1000000000).toNat =
      w.nanos.toNat * n.toNat / nanosPerSecond := by
    rw [UInt64.toNat_div, total]
    rfl
  have rest : (UInt64.ofNat (w.nanos.toNat * n.toNat) % 1000000000).toUInt32.toNat =
      w.nanos.toNat * n.toNat % nanosPerSecond := by
    rw [UInt64.toNat_toUInt32, UInt64.toNat_mod, total]
    exact Nat.mod_eq_of_lt (Nat.lt_trans (Nat.mod_lt _ (by decide)) (by decide))
  unfold scale?
  rw [word64?_of_lt small]
  dsimp only [Option.bind_eq_bind, Option.bind_some]
  by_cases fits : w.secs.toNat * n.toNat < UInt64.size
  · have kept := UInt64.toNat_ofNat_of_lt' fits
    rw [word64?_of_lt fits]
    dsimp only
    rw [kept, extra]
    apply guarded?_eq (rest.symm ▸ Nat.mod_lt _ (by decide))
    rw [product, rest, Nat.add_mul, Nat.add_assoc, Nat.mul_comm (_ / _), Nat.div_add_mod]
  · rw [word64?_of_le (Nat.not_lt.1 fits)]
    apply greatest_eq
    unfold greatestNanos UInt64.size nanosPerSecond at *
    omega

/-- The words are in the order of their durations: the seconds decide first. -/
theorem nanos_lt_iff (a b : Words) :
    b.toDuration.nanos < a.toDuration.nanos ↔
      b.secs < a.secs ∨ (b.secs = a.secs ∧ b.nanos < a.nanos) := by
  have ha := a.nanos_lt
  have hb := b.nanos_lt
  rw [nanos_toDuration, nanos_toDuration, UInt64.lt_iff_toNat_lt, UInt32.lt_iff_toNat_lt,
    ← UInt64.toNat_inj]
  unfold nanosPerSecond at *
  omega

theorem toDuration_longer (a b : Words) :
    (a.longer b).toDuration = a.toDuration.longer b.toDuration := by
  ext
  rw [nanos_longer, longer]
  split
  · next less =>
    rw [← nanos_lt_iff] at less
    exact (Nat.max_eq_left (Nat.le_of_lt less)).symm
  · next more =>
    rw [← nanos_lt_iff] at more
    exact (Nat.max_eq_right (Nat.not_lt.1 more)).symm

end Words

end Stepwise.Duration
