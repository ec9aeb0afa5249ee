/-
# Throttled failure reports

Failures of one source are counted, but one notice is emitted per interval at most. A failure is due
if none was emitted yet or the last emission is at least an interval ago. Otherwise it is
suppressed, and the next notice says how many were. Clock readings are nanoseconds; they are moved
up by one, so that zero is free to mean "never", and stop at the greatest 64-bit word.

Key definitions: `Throttle`, `Throttle.ofInterval`, `Throttle.report`.
Key theorem: `Throttle.total_report`.
-/
import LogRelay.Notice

namespace LogRelay

/-- The reports of one source. -/
structure Throttle where
  /-- What fails. -/
  source : String
  /-- The least time between two notices, in nanoseconds. -/
  interval : Nat
  /-- When the last notice was emitted, zero if none was. -/
  emitted : Nat := 0
  /-- Failures since the last notice. -/
  suppressed : Nat := 0
  /-- All failures. -/
  total : Nat := 0
  deriving DecidableEq, Repr

namespace Throttle

/-- The interval of a relay's own reports. -/
def defaultInterval : Duration := ⟨10, 0⟩

/-- No failure of `source` yet. -/
def ofInterval (source : String) (interval : Duration) : Throttle where
  source := source
  interval := min interval.toNanos wordMax

/-- The moment that a clock reading stands for. -/
def moment (now : Nat) : Nat := min (now + 1) wordMax

/-- Whether a failure at `now` is to be emitted. -/
def isDue (t : Throttle) (now : Nat) : Bool :=
  t.emitted = 0 ∨ t.interval ≤ moment now - t.emitted

/-- Counts a failure that happened at `now`; the notice, if one is due. -/
def report (t : Throttle) (now : Nat) (reason : String) : Option Notice × Throttle :=
  if t.isDue now then
    (some (.failure t.source reason t.suppressed (t.total + 1)),
      { t with emitted := moment now, suppressed := 0, total := t.total + 1 })
  else (none, { t with suppressed := t.suppressed + 1, total := t.total + 1 })

/-- Every failure is counted. -/
@[simp] theorem total_report (t : Throttle) (now : Nat) (reason : String) :
    (t.report now reason).2.total = t.total + 1 := by
  unfold report; split <;> rfl

end Throttle

end LogRelay
