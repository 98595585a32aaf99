import Stepwise.Decimal.Binary

/-!
# Durations

A duration is a number of nanoseconds below `2 ^ 64` seconds. Sums and multiples that are
longer stop at the greatest duration, `Duration.greatest`.
-/

namespace Stepwise

/-- The nanoseconds of the greatest duration: `2 ^ 64` seconds less one nanosecond. -/
def greatestNanos : Nat := UInt64.size * nanosPerSecond - 1

/-- A length of time in nanoseconds. -/
@[ext] structure Duration where
  nanos : Nat
  nanos_le : nanos ≤ greatestNanos := by decide
deriving DecidableEq, Repr

/-- Why a number of seconds is no duration. -/
inductive SecondsError where
  | negative
  | tooBig
deriving DecidableEq, Repr

/-- The wording of a refused number of seconds. -/
def SecondsError.message : SecondsError → String
  | .negative => "cannot convert float seconds to Duration: value is negative"
  | .tooBig => "cannot convert float seconds to Duration: value is either too big or NaN"

namespace Duration

/-- No time. -/
def zero : Duration := ⟨0, by decide⟩

/-- The greatest duration. -/
def greatest : Duration := ⟨greatestNanos, Nat.le_refl _⟩

instance : Inhabited Duration := ⟨zero⟩

/-- The duration of some nanoseconds, or the greatest one if they are too many. -/
def ofNanos (n : Nat) : Duration := ⟨min n greatestNanos, Nat.min_le_right _ _⟩

/-- The duration of some milliseconds, at most the greatest. -/
def ofMillis (ms : Nat) : Duration := ofNanos (ms * nanosPerMilli)

/-- The duration of some seconds, at most the greatest. -/
def ofSecs (s : Nat) : Duration := ofNanos (s * nanosPerSecond)

/-- The whole seconds. -/
def secs (d : Duration) : Nat := d.nanos / nanosPerSecond

/-- The nanoseconds past the last whole second. -/
def subsecNanos (d : Duration) : Nat := d.nanos % nanosPerSecond

/-- The whole milliseconds. -/
def millis (d : Duration) : Nat := d.nanos / nanosPerMilli

/-- The whole milliseconds as they are shown: their lowest 64 bits. -/
def shownMillis (d : Duration) : Nat := d.millis % UInt64.size

/-- The seconds as a double. -/
def seconds (d : Duration) : Float :=
  Decimal.nearest false d.secs 1 + Decimal.nearest false d.subsecNanos 1 / 1e9

/-- The sum, or the greatest duration. -/
def add (a b : Duration) : Duration := ofNanos (a.nanos + b.nanos)

/-- The multiple, or the greatest duration. -/
def scale (d : Duration) (n : Nat) : Duration := ofNanos (d.nanos * n)

/-- The longer one. -/
def longer (a b : Duration) : Duration := if a.nanos < b.nanos then b else a

/-- The shorter one. -/
def shorter (a b : Duration) : Duration := if b.nanos < a.nanos then b else a

/-- The duration nearest to a number of seconds, halves of a nanosecond to the even one. -/
def ofSeconds (x : Float) : Except SecondsError Duration :=
  if x < 0 then .error .negative
  else
    match Decimal.Binary.ofFloat? x with
    | none => .error .tooBig
    | some b =>
      if UInt64.size * Nat.pow 2 (-b.exponent).toNat ≤ b.mantissa * Nat.pow 2 b.exponent.toNat then .error .tooBig
      else .ok (ofNanos (Decimal.roundShifted (b.mantissa * nanosPerSecond) 1 b.exponent))

theorem nanos_ofNanos (n : Nat) : (ofNanos n).nanos = min n greatestNanos := rfl

theorem nanos_add (a b : Duration) : (a.add b).nanos = min (a.nanos + b.nanos) greatestNanos := rfl

theorem nanos_scale (d : Duration) (n : Nat) :
    (d.scale n).nanos = min (d.nanos * n) greatestNanos := rfl

theorem nanos_longer (a b : Duration) : (a.longer b).nanos = max a.nanos b.nanos := by
  unfold longer
  split <;> omega

theorem nanos_shorter (a b : Duration) : (a.shorter b).nanos = min a.nanos b.nanos := by
  unfold shorter
  split <;> omega

@[simp] theorem ofNanos_nanos (d : Duration) : ofNanos d.nanos = d := by
  ext
  simp [ofNanos, Nat.min_eq_left d.nanos_le]

end Duration

end Stepwise
