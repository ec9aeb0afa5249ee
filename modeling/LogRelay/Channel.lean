/-
# Channels

A channel is what the writers of a relay and its consumer share: the ring, the threshold, the flag
that says whether records are still taken, the counts of what became of the records, and the reports
of failures. Its notices are listed in the order in which they were emitted.

Key definitions: `Channel`, `Channel.ofGeometry`, `Channel.accepts`, `Channel.publish`,
`Channel.stats`.
-/
import LogRelay.Ring.Basic
import LogRelay.Throttle

namespace LogRelay

/-- What became of the records that the consumer took from the ring. -/
structure Tally where
  /-- The sink took the record. -/
  delivered : Nat := 0
  /-- The sink failed or panicked. -/
  sinkFailures : Nat := 0
  /-- The slot held no record. -/
  decodeFailures : Nat := 0
  /-- The record was gone when the consumer came for it. -/
  skipped : Nat := 0
  deriving DecidableEq, Repr

/-- What writers and consumer share. -/
structure Channel where
  geometry : Geometry
  ring : Ring geometry
  mode : WriterMode := .claimed
  threshold : Severity := .info
  /-- Whether records are still taken. -/
  running : Bool := true
  /-- Whether the consumer is done. -/
  finished : Bool := false
  tally : Tally := {}
  writeReports : Throttle := .ofInterval "write" Throttle.defaultInterval
  sinkReports : Throttle := .ofInterval "sink" Throttle.defaultInterval
  decodeReports : Throttle := .ofInterval "decode" Throttle.defaultInterval
  notices : List Notice := []

/-- The counts of a channel at one moment. -/
structure Stats where
  published : Nat
  delivered : Nat
  overflowed : Nat
  writeFailures : Nat
  sinkFailures : Nat
  decodeFailures : Nat
  skipped : Nat
  deriving DecidableEq, Repr

namespace Channel

/-- A channel over an empty ring. -/
def ofGeometry (g : Geometry) (mode : WriterMode) (threshold : Severity) : Channel :=
  { geometry := g, ring := Ring.empty g, mode, threshold }

/-- Whether a record of this severity is to be written. -/
def isEnabled (c : Channel) (severity : Severity) : Bool := severity.reaches c.threshold

/-- Whether a record of this severity is taken: it is to be written, and the channel is running. -/
def accepts (c : Channel) (severity : Severity) : Bool := c.isEnabled severity && c.running

/-- Emits a notice. -/
def emit (c : Channel) (notice : Notice) : Channel := { c with notices := c.notices ++ [notice] }

/-- Publishes an encoded record in the channel's mode. -/
def publish (c : Channel) (encoded : Bytes) : Channel :=
  match c.mode with
  | .claimed => { c with ring := (c.ring.publish encoded).2 }
  | .single => { c with ring := (c.ring.publishAlone encoded).2 }

/-- Counts a write that was given up, and reports it if a report is due. -/
def refuseWrite (c : Channel) (now : Nat) (fault : WriteFault) : Channel :=
  let (notice, reports) := c.writeReports.report now fault.message
  { c with writeReports := reports, notices := c.notices ++ notice.toList }

/-- Reports a failure of the sink if a report is due. -/
def reportSink (c : Channel) (now : Nat) (reason : String) : Channel :=
  let (notice, reports) := c.sinkReports.report now reason
  { c with sinkReports := reports, notices := c.notices ++ notice.toList }

/-- Counts a slot that held no record, and reports it if a report is due. -/
def rejectFrame (c : Channel) (now : Nat) (error : FrameError) : Channel :=
  let (notice, reports) := c.decodeReports.report now error.message
  { c with
    decodeReports := reports
    notices := c.notices ++ notice.toList
    tally := { c.tally with decodeFailures := c.tally.decodeFailures + 1 } }

/-- Counts a record that the sink took. -/
def countDelivered (c : Channel) : Channel :=
  { c with tally := { c.tally with delivered := c.tally.delivered + 1 } }

/-- Counts a record that the sink did not take. -/
def countSinkFailure (c : Channel) : Channel :=
  { c with tally := { c.tally with sinkFailures := c.tally.sinkFailures + 1 } }

/-- Counts a record that was gone. -/
def countSkipped (c : Channel) : Channel :=
  { c with tally := { c.tally with skipped := c.tally.skipped + 1 } }

/-- The counts of a channel. -/
def stats (c : Channel) : Stats where
  published := c.ring.published
  delivered := c.tally.delivered
  overflowed := c.ring.overflowed
  writeFailures := c.writeReports.total
  sinkFailures := c.tally.sinkFailures
  decodeFailures := c.tally.decodeFailures
  skipped := c.tally.skipped

end Channel

end LogRelay
