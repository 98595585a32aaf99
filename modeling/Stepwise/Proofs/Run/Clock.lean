import Stepwise.Run.World

/-!
# When waits are over

A wait that begins now is over in a millisecond that is not past, the first one by which its length
has gone by as far as the clock can tell it.
-/

namespace Stepwise

namespace Duration

/-- The whole milliseconds after which a length of time has gone by. -/
def ceilMillis (d : Duration) : Nat := (d.nanos + (nanosPerMilli - 1)) / nanosPerMilli

/-- The whole milliseconds that cover a duration are the fewest that do. -/
theorem ceilMillis_le_iff (d : Duration) (time : Nat) :
    d.ceilMillis ≤ time ↔ d.nanos ≤ time * nanosPerMilli := by
  unfold ceilMillis nanosPerMilli
  omega

end Duration

namespace World

/-- The millisecond at which a pause is over; no pause at all takes no time. -/
def afterPause (world : World) (length : Duration) : Nat :=
  if length = .zero then world.now else world.wakeAt length

/-- No wait is over before it begins. -/
theorem now_le_wakeAt (world : World) (length : Duration) : world.now ≤ world.wakeAt length := by
  unfold wakeAt
  split <;> exact Nat.le_add_right _ _

/-- A wait of some length is not over when it begins. -/
theorem now_lt_wakeAt (world : World) {length : Duration} (some : 0 < length.nanos) :
    world.now < world.wakeAt length := by
  unfold wakeAt
  split
  · exact Nat.lt_add_of_pos_right (by decide)
  · unfold nanosPerMilli
    omega

/-- A wait is over as soon as its length has gone by. -/
theorem wakeAt_le_iff {world : World} {length : Duration}
    (told : world.now / millisPerSecond + length.secs < signedBound) (time : Nat) :
    world.wakeAt length ≤ time ↔
      world.now * nanosPerMilli + length.nanos ≤ time * nanosPerMilli := by
  rw [wakeAt, if_neg (Nat.not_le.2 told)]
  unfold nanosPerMilli
  omega

/-- A pause is over at the first whole millisecond at which it has passed. -/
theorem afterPause_le_iff {world : World} {length : Duration}
    (told : world.now / millisPerSecond + length.secs < signedBound) (time : Nat) :
    world.afterPause length ≤ time ↔
      world.now * nanosPerMilli + length.nanos ≤ time * nanosPerMilli := by
  unfold afterPause
  split
  · next none =>
    have nothing : length.nanos = 0 := congrArg Duration.nanos none
    unfold nanosPerMilli
    omega
  · exact wakeAt_le_iff told time

/-- The end of a wait hangs on nothing but the time at which it begins. -/
theorem wakeAt_congr {world other : World} (now : other.now = world.now) (length : Duration) :
    other.wakeAt length = world.wakeAt length := by
  rw [wakeAt, wakeAt, now]

/-- A deadline depends on the time alone. -/
theorem deadline?_congr {world other : World} (now : other.now = world.now) (length : Duration) :
    other.deadline? length = world.deadline? length := by
  rw [deadline?, deadline?, now]

/-- The clock can tell a time if it can tell the whole seconds up to it. -/
theorem secs_lt {world : World} {length : Duration}
    (told : world.now + length.ceilMillis < signedBound * millisPerSecond) :
    world.now / millisPerSecond + length.secs < signedBound := by
  have whole := (length.ceilMillis_le_iff _).1 (Nat.le_refl _)
  unfold Duration.secs
  unfold nanosPerMilli at whole
  unfold millisPerSecond at told ⊢
  unfold nanosPerSecond
  omega

/-- A wait whose end the clock can tell is over when its length has gone by in whole
milliseconds. -/
theorem wakeAt_eq {world : World} {length : Duration}
    (told : world.now + length.ceilMillis < signedBound * millisPerSecond) :
    world.wakeAt length = world.now + length.ceilMillis :=
  if_neg (Nat.not_le.2 (secs_lt told))

/-- A deadline that the clock can tell is as long from now as it is meant to be. -/
theorem deadline?_eq {world : World} {length : Duration}
    (told : world.now + length.ceilMillis < signedBound * millisPerSecond) :
    world.deadline? length = some (world.now * nanosPerMilli + length.nanos) :=
  if_neg (Nat.not_le.2 (secs_lt told))

end World

end Stepwise
