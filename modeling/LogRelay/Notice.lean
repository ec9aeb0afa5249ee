/-
# Notices

A relay never reports its own troubles to the code that logs. It emits notices: that it started and
stopped, that something failed (and how many failures went unreported before), that the consumer was
not done in time. A notice has a severity, a message and named fields.

Key definitions: `Notice`, `Notice.severity`, `Notice.message`, `Notice.fields`.
-/
import LogRelay.Duration
import LogRelay.Failure
import LogRelay.Severity
import LogRelay.Settings

namespace LogRelay

/-- Something that a relay says about itself. -/
inductive Notice
  /-- Something failed. `suppressed` failures of the same source went unreported just before, and
  this one is number `total`. -/
  | failure (source reason : String) (suppressed total : Nat)
  /-- The relay started. -/
  | started (slotCount slotBytes : Nat) (threshold : Severity) (mode : WriterMode)
  /-- The relay stopped and its consumer is done. -/
  | stopped (published delivered overflowed : Nat)
  /-- The relay stopped and its consumer is not done. -/
  | notDrained (pending : Nat) (timeout : Duration)
  /-- The relay was given up, and stopping it failed. -/
  | closedEarly (error : RelayError)
  /-- The sink panicked in a flush. -/
  | flushPanicked
  /-- The consumer thread ended in a panic. -/
  | consumerPanicked
  deriving DecidableEq, Repr

namespace Notice

/-- How serious a notice is. -/
def severity : Notice → Severity
  | failure .. => .warn
  | started .. => .info
  | stopped .. => .info
  | notDrained .. => .warn
  | closedEarly .. => .warn
  | flushPanicked => .error
  | consumerPanicked => .error

/-- The message of a notice. -/
def message : Notice → String
  | failure _ _ 0 _ => "logger failure"
  | failure _ _ (_ + 1) _ => "logger failure (rate-limited)"
  | started .. => "ring logger started"
  | stopped .. => "ring logger stopped"
  | notDrained .. => "consumer did not drain before shutdown timeout"
  | closedEarly .. => "shutdown on drop incomplete"
  | flushPanicked => "sink panicked while flushing"
  | consumerPanicked => "consumer thread panicked"

/-- The value of a notice's field. -/
inductive Value
  | number (n : Nat)
  | text (s : String)
  deriving DecidableEq, Repr

/-- The named fields of a notice. Suppressed failures are only named if there are some. -/
def fields : Notice → List (String × Value)
  | failure source reason suppressed total =>
    [("what", .text source), ("error", .text reason)]
      ++ (if suppressed = 0 then [] else [("suppressed_count", .number suppressed)])
      ++ [("total", .number total)]
  | started slotCount slotBytes threshold mode =>
    [("ring_capacity", .number slotCount), ("slot_capacity", .number slotBytes),
      ("min_level", .text threshold.name), ("mode", .text mode.name)]
  | stopped published delivered overflowed =>
    [("published", .number published), ("delivered", .number delivered),
      ("dropped_overflow", .number overflowed)]
  | notDrained pending timeout =>
    [("pending", .number pending), ("timeout_ms", .number timeout.toMillis)]
  | closedEarly error => [("error", .text error.message)]
  | flushPanicked => []
  | consumerPanicked => []

end Notice

end LogRelay
