/-!
# Widths and units

The bound of signed integers of 64 bits, and how many units of time make the next larger one.
The bounds of the integers without a sign are `UInt32.size` and `UInt64.size`.
-/

namespace Stepwise

/-- One more than the greatest signed integer of 64 bits: `2 ^ 63`. -/
abbrev signedBound : Nat := 9223372036854775808

/-- Nanoseconds in a second. -/
abbrev nanosPerSecond : Nat := 1000000000

/-- Nanoseconds in a millisecond. -/
abbrev nanosPerMilli : Nat := 1000000

/-- Milliseconds in a second. -/
abbrev millisPerSecond : Nat := 1000

end Stepwise
