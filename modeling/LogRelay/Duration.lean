/-
# Durations

A length of time in seconds and nanoseconds, and the numbers that are derived from it.

Key definitions: `Duration`, `Duration.toNanos`, `Duration.toMillis`.
-/

namespace LogRelay

/-- The greatest number that a word of 64 bits holds. -/
def wordMax : Nat := 0xFFFFFFFFFFFFFFFF

/-- A length of time. -/
structure Duration where
  seconds : Nat
  nanos : Nat
  deriving DecidableEq, Repr

namespace Duration

/-- Nanoseconds in a second. -/
def nanosPerSecond : Nat := 1000000000

/-- Nanoseconds in a millisecond. -/
def nanosPerMilli : Nat := 1000000

/-- A duration of `n` nanoseconds. -/
def ofNanos (n : Nat) : Duration := ⟨n / nanosPerSecond, n % nanosPerSecond⟩

/-- The duration in nanoseconds. -/
def toNanos (d : Duration) : Nat := d.seconds * nanosPerSecond + d.nanos

/-- The whole milliseconds in a duration, as a word of 64 bits. -/
def toMillis (d : Duration) : Nat := d.toNanos / nanosPerMilli % (wordMax + 1)

@[simp] theorem toNanos_ofNanos (n : Nat) : (ofNanos n).toNanos = n := by
  simp only [toNanos, ofNanos, nanosPerSecond]; omega

end Duration

end LogRelay
