/-
# Relays

A relay is what an application logs to: writers put records into a channel, and a consumer delivers
them to the sink. Logging never fails and never waits. A relay is stopped once: it takes no more
records from then on, and the caller waits for the consumer to deliver what is left. If the consumer
is not done in time it goes on by itself and the caller is told how many records are still in the
ring. Every later attempt to stop the relay is refused.

Stopping is in two parts, `beginShutdown` and `endShutdown`, between which the consumer works;
`shutdown` is both with the consumer working until it rests.

Key definitions: `Relay`, `Relay.start`, `Relay.log`, `Relay.shutdown`, `Relay.close`,
`Relay.describe`.
Key theorem: `Relay.start_of_check`.
-/
import LogRelay.Drain

namespace LogRelay

/-- A relay with a sink whose states are in `σ`. -/
structure Relay (σ : Type) where
  pipeline : Pipeline σ
  /-- Whether the relay was not stopped yet. -/
  stoppable : Bool := true
  /-- How long stopping waits. -/
  timeout : Duration

namespace Relay

variable {σ : Type}

/-- A relay over a checked geometry, which says that it started. -/
def ofGeometry (settings : Settings) (g : Geometry) (state : σ) : Relay σ where
  pipeline := .start
    ((Channel.ofGeometry g settings.mode settings.threshold).emit
      (.started g.slotCount g.slotBytes settings.threshold settings.mode)) state
  timeout := settings.shutdownTimeout

/-- Starts a relay. -/
def start (settings : Settings) (state : σ) : Except (Failure RelayError) (Relay σ) :=
  match settings.check with
  | .error fault => .error (.refused (.settings fault.message))
  | .ok () =>
    match Geometry.build settings.slotCount settings.slotBytes with
    | .error (.refused fault) => .error (.refused (.settings fault.message))
    | .error .panicked => .error .panicked
    | .ok g => .ok (ofGeometry settings g state)

/-- The relay's channel. -/
def channel (r : Relay σ) : Channel := r.pipeline.channel

/-- The relay with its channel changed. -/
def mapChannel (r : Relay σ) (f : Channel → Channel) : Relay σ :=
  { r with pipeline := r.pipeline.mapChannel f }

/-! ### Logging -/

/-- Logs an entry from a thread with the given buffer. -/
def log (r : Relay σ) (scratch : Scratch) (now : UInt64) (entry : Entry 1) : Relay σ × Scratch :=
  let (channel, scratch) := r.channel.log scratch now entry
  (r.mapChannel fun _ => channel, scratch)

/-- Logs an entry if its severity is to be written, and looks at nothing else before. -/
def logIfEnabled (r : Relay σ) (scratch : Scratch) (now : UInt64) (entry : Entry 1) :
    Relay σ × Scratch :=
  let (channel, scratch) := r.channel.logIfEnabled scratch now entry
  (r.mapChannel fun _ => channel, scratch)

/-- Sets the least severity that is written. -/
def setThreshold (r : Relay σ) (threshold : Severity) : Relay σ :=
  r.mapChannel fun c => { c with threshold }

/-! ### Stopping -/

/-- Asks the consumer to stop; refused if it was asked before. -/
def beginShutdown (r : Relay σ) : Except RelayError (Relay σ) :=
  if r.stoppable then .ok { r with stoppable := false, pipeline := r.pipeline.stop }
  else .error .alreadyShutDown

/-- Whether the consumer thread ended in a panic. -/
def consumerPanicked (r : Relay σ) : Bool := r.pipeline.drain.phase = .ended true

/-- Looks whether the consumer is done, and says so. -/
def endShutdown (r : Relay σ) : Except RelayError Unit × Relay σ :=
  let stats := r.channel.stats
  if r.channel.finished then
    let r := if r.consumerPanicked then r.mapChannel (·.emit .consumerPanicked) else r
    (.ok (), r.mapChannel (·.emit (.stopped stats.published stats.delivered stats.overflowed)))
  else
    let pending := r.channel.ring.length
    (.error (.shutdownTimeout pending), r.mapChannel (·.emit (.notDrained pending r.timeout)))

/-- Lets the consumer work until it rests, or until it is blocked in its sink. -/
def settle (sink : Sink σ) (r : Relay σ) (now : UInt64) (blocked : Bool) : Relay σ :=
  { r with pipeline := r.pipeline.settle sink now blocked }

/-- Stops the relay. -/
def shutdown (sink : Sink σ) (r : Relay σ) (now : UInt64) (blocked : Bool) :
    Except RelayError Unit × Relay σ :=
  match r.beginShutdown with
  | .error e => (.error e, r)
  | .ok r => (settle sink r now blocked).endShutdown

/-- Gives the relay up: stops it if it was not stopped before. -/
def close (sink : Sink σ) (r : Relay σ) (now : UInt64) (blocked : Bool) : Relay σ :=
  if r.stoppable then
    match shutdown sink r now blocked with
    | (.ok (), r) => r
    | (.error e, r) => r.mapChannel (·.emit (.closedEarly e))
  else r

/-! ### Looking at a relay -/

/-- The relay's counts. -/
def stats (r : Relay σ) : Stats := r.channel.stats

/-- Whether each severity is written, least severe first. -/
def enabledSeverities (r : Relay σ) : List Bool := Severity.all.map r.channel.isEnabled

/-- The relay in one line. -/
def describe (r : Relay σ) : String :=
  let g := r.channel.geometry
  "RingLogger \x7b ring_capacity: " ++ toString g.slotCount
    ++ ", slot_capacity: " ++ toString g.slotBytes
    ++ ", min_level: " ++ r.channel.threshold.title
    ++ ", running: " ++ (if r.channel.running then "true" else "false") ++ " \x7d"

/-- Settings that pass their check start a relay, unless its ring cannot be made. -/
theorem start_of_check {settings : Settings} (state : σ) (ok : settings.check = .ok ()) :
    ∃ g, Geometry.check settings.slotCount settings.slotBytes = .ok g ∧
      start settings state =
        if g.storageBytes ≤ Geometry.blockMax then .ok (ofGeometry settings g state)
        else .error .panicked := by
  obtain ⟨g, passed⟩ := Settings.geometry_of_check ok
  refine ⟨g, passed, ?_⟩
  by_cases fits : g.storageBytes ≤ Geometry.blockMax
  · simp only [start, ok, Geometry.build_of_check passed, if_pos fits]
  · simp only [start, ok, Geometry.build_of_check passed, if_neg fits]

end Relay

end LogRelay
