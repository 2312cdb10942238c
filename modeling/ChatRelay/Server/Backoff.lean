/-!
# Accepting again after a failure

A failed accept is tried again after a delay that doubles with each failure in a row, from ten
milliseconds up to a second. `delay_le_delay` says that it never shrinks.
-/

namespace ChatRelay.Server.Backoff

/-- The first delay in milliseconds. -/
def shortest : Nat := 10

/-- The longest delay in milliseconds. -/
def longest : Nat := 1000

/-- The delay is doubled no more often than this. -/
def maxDoublings : Nat := 16

/-- The delay in milliseconds after so many failures in a row. A shift to the left doubles. -/
def delay (failures : Nat) : Nat :=
  min longest (shortest <<< min maxDoublings (failures - 1))

/-- More failures in a row never shorten the delay. -/
theorem delay_le_delay {fewer more : Nat} (h : fewer ≤ more) : delay fewer ≤ delay more := by
  have hpow : 2 ^ min maxDoublings (fewer - 1) ≤ 2 ^ min maxDoublings (more - 1) :=
    Nat.pow_le_pow_right (by omega) (by omega)
  have hmul := Nat.mul_le_mul_left shortest hpow
  unfold delay
  rw [Nat.shiftLeft_eq, Nat.shiftLeft_eq]
  omega

end ChatRelay.Server.Backoff
