/-
# Sessions

A session drives a relay through a list of steps, one after the other, and says after each step what
can be seen. Its sink is scripted and stands behind a gate: while the gate is held, the sink keeps a
record that it is handed without an answer. After every step the consumer works until it rests or is
blocked at the gate, so what is seen does not depend on how threads are scheduled.

The relay can be dropped in the middle of a session. What is asked of it afterwards has no answer,
but the gate still works, and so does a consumer that was not done.

Key definitions: `Session`, `SessionStep`, `Session.start`, `Session.take`, `Session.conclude`.
-/
import LogRelay.Relay
import LogRelay.Sink.Scripted

namespace LogRelay

/-- One step of a session. -/
inductive SessionStep
  /-- Logs an entry from the session's own thread. -/
  | log (entry : Entry 1)
  /-- The same, if the entry's severity is to be written. -/
  | logIfEnabled (entry : Entry 1)
  /-- Logs an entry from a new thread. -/
  | logElsewhere (entry : Entry 1)
  /-- Logs an entry from a new thread, and another when that thread has given its buffer back. -/
  | logLate (early late : Entry 1)
  | setThreshold (threshold : Severity)
  | askEnabled
  | askDescription
  | askGeometry
  | shutdown
  /-- Closes the gate. -/
  | hold
  /-- Opens the gate. -/
  | release
  /-- Says how flushes end from now on. -/
  | setFlush (outcome : Outcome)
  /-- Drops the relay. -/
  | drop

/-- What a step is answered with. -/
inductive SessionAnswer
  | nothing
  | severity (s : Severity)
  | flags (each : List Bool)
  | text (s : String)
  | geometry (slotCount slotBytes : Nat)
  | stopped (result : Except RelayError Unit)
  | noRelay

/-- What can be seen of a relay between two steps. -/
structure Glance where
  stats : Stats
  running : Bool
  threshold : Severity

/-- What is seen after a step. -/
structure Observation where
  answer : SessionAnswer
  /-- The records that the sink took since the step before. -/
  arrived : List Frame
  /-- The flushes so far. -/
  flushes : Nat
  /-- The relay itself, or the last that was seen of it before it was dropped. -/
  glance : Option Glance

/-- A relay that is driven step by step. -/
structure Session where
  sink : Sink Notebook
  relay : Relay Notebook
  /-- Whether the relay was not dropped yet. -/
  isOpen : Bool := true
  /-- Whether the gate is held. -/
  gateHeld : Bool := false
  /-- The buffer of the session's own thread. -/
  scratch : Scratch := {}
  now : UInt64
  /-- How many of the records that the sink took were reported. -/
  reported : Nat := 0
  lastGlance : Option Glance := none

namespace Session

/-- The time between two steps, in nanoseconds. -/
def stepTime : UInt64 := 1000

/-- A session over a started relay. -/
def start (sink : Sink Notebook) (settings : Settings) (now : UInt64) :
    Except (Failure RelayError) Session :=
  match Relay.start settings ({} : Notebook) with
  | .error e => .error e
  | .ok relay => .ok { sink, relay, now }

/-- The state of the session's sink. -/
def notebook (s : Session) : Notebook := s.relay.pipeline.sink

/-- Lets the consumer work until it rests. -/
def settle (s : Session) : Session :=
  { s with relay := s.relay.settle s.sink s.now s.gateHeld }

/-- Logs from a thread with the given buffer. -/
def logFrom (s : Session) (scratch : Scratch) (entry : Entry 1) : Session × Scratch :=
  let (relay, scratch) := s.relay.log scratch s.now entry
  ({ s with relay }, scratch)

/-- Does what a step asks of the relay. -/
def ask (s : Session) : SessionStep → SessionAnswer × Session
  | .log entry =>
    let (s, scratch) := s.logFrom s.scratch entry
    (.nothing, { s with scratch })
  | .logIfEnabled entry =>
    let (relay, scratch) := s.relay.logIfEnabled s.scratch s.now entry
    (.nothing, { s with relay, scratch })
  | .logElsewhere entry => (.nothing, (s.logFrom {} entry).1)
  | .logLate early late =>
    let (s, scratch) := s.logFrom {} early
    (.nothing, (s.logFrom { scratch with state := .tornDown } late).1)
  | .setThreshold threshold =>
    let relay := s.relay.setThreshold threshold
    (.severity relay.channel.threshold, { s with relay })
  | .askEnabled => (.flags s.relay.enabledSeverities, s)
  | .askDescription => (.text s.relay.describe, s)
  | .askGeometry =>
    let g := s.relay.channel.geometry
    (.geometry g.slotCount g.slotBytes, s)
  | .shutdown =>
    let (result, relay) := s.relay.shutdown s.sink s.now s.gateHeld
    (.stopped result, { s with relay })
  | _ => (.nothing, s)

/-- Does what a step asks of the session, or passes it on to the relay if there is one. -/
def perform (s : Session) (step : SessionStep) : SessionAnswer × Session :=
  match step with
  | .hold => (.nothing, { s with gateHeld := true })
  | .release => (.nothing, { s with gateHeld := false })
  | .setFlush outcome =>
    let pipeline := { s.relay.pipeline with sink := { s.notebook with flushOutcome := outcome } }
    (.nothing, { s with relay := { s.relay with pipeline } })
  | .drop =>
    if s.isOpen then
      (.nothing, { s with isOpen := false, relay := s.relay.close s.sink s.now s.gateHeld })
    else (.nothing, s)
  | _ => if s.isOpen then s.ask step else (.noRelay, s)

/-- What can be seen of the session's relay. -/
def glance (s : Session) : Option Glance :=
  if s.isOpen then
    some ⟨s.relay.stats, s.relay.channel.running, s.relay.channel.threshold⟩
  else s.lastGlance

/-- Takes one step. -/
def take (s : Session) (step : SessionStep) : Observation × Session :=
  let (answer, s) := s.perform step
  let s := s.settle
  let glance := s.glance
  let stored := s.notebook.stored
  ({ answer, glance, arrived := stored.drop s.reported, flushes := s.notebook.flushes },
    { s with
      now := s.now + stepTime, reported := stored.length, lastGlance := glance })

/-- Takes all steps. -/
def takeAll (s : Session) : List SessionStep → List Observation × Session
  | [] => ([], s)
  | step :: rest =>
    let (seen, s) := s.take step
    let (more, s) := s.takeAll rest
    (seen :: more, s)

/-- Ends the session: opens the gate and lets the consumer rest, then drops the relay and lets the
consumer come to its end. A record that was blocked is thus flushed before the relay is dropped. -/
def conclude (s : Session) : Session := (s.takeAll [.release, .drop]).2

/-- Whether no record in a list is older than the one in front of it. -/
def isChronological : List Frame → Bool
  | f :: g :: rest =>
    f.record.timestamp ≤ g.record.timestamp && isChronological (g :: rest)
  | _ => true

end Session

end LogRelay
