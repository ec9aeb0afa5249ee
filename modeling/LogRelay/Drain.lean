/-
# The drain

The consumer thread takes records from the ring and hands them to the sink. It goes round a loop:

  * it looks how far the ring is published; if it is behind, it moves its own cursor over everything
    that was given up meanwhile, copies one record out, gives the slot back, and delivers the copy;
  * if it has caught up and is told to stop, it looks once more and leaves if nothing came;
  * if it has caught up otherwise, it flushes the sink if anything was read since the last flush,
    and parks until it is woken or its rest is over.

When it leaves the loop it flushes once more and is done. Each of these is a step of its own, so
that writers can be let in between any two of them.

A pipeline is a channel with its consumer: the drain, the sink's state, and the buffer in which the
consumer thread composes what the sink logs.

Key definitions: `DrainPhase`, `Drain`, `Pipeline`, `Pipeline.step`, `Pipeline.settle`,
`Pipeline.finish`.
Key theorems: `Pipeline.step_ended`.
-/
import LogRelay.Sink.Basic
import LogRelay.Thread

namespace LogRelay

/-- What the consumer does next. -/
inductive DrainPhase
  /-- Looks how far the ring is published. -/
  | polling
  /-- Moves its cursor over what was given up; the ring was published up to `published`. -/
  | catchingUp (published : Nat)
  /-- Copies a record out. -/
  | reading
  /-- Gives the slot back. -/
  | releasing (found : Ring.Reading)
  /-- Delivers the copy. -/
  | delivering (found : Ring.Reading)
  /-- Nothing is left to read: looks whether to stop. -/
  | idling
  /-- Told to stop: looks once more for something to read. -/
  | leaving
  /-- Flushes before it parks. -/
  | flushing
  /-- Rests. -/
  | parked
  /-- Flushes for the last time. -/
  | closing
  /-- Done, perhaps with a panic. -/
  | ended (panicked : Bool)
  deriving DecidableEq, Repr

/-- The consumer's own state. -/
structure Drain where
  /-- The next sequence to be read. -/
  cursor : Nat
  /-- Whether anything was read since the last flush. -/
  unflushed : Bool := false
  phase : DrainPhase := .polling
  deriving DecidableEq, Repr

/-- A channel with its consumer. -/
structure Pipeline (σ : Type) where
  channel : Channel
  drain : Drain
  sink : σ
  scratch : Scratch := {}

namespace Pipeline

variable {σ : Type}

/-- A consumer that begins where the last one stopped. -/
def start (channel : Channel) (sink : σ) : Pipeline σ :=
  { channel, sink, drain := { cursor := channel.ring.consumed } }

/-- The pipeline with its consumer in another phase. -/
def enter (p : Pipeline σ) (phase : DrainPhase) : Pipeline σ :=
  { p with drain := { p.drain with phase := phase } }

/-- The pipeline with its channel changed. -/
def mapChannel (p : Pipeline σ) (f : Channel → Channel) : Pipeline σ :=
  { p with channel := f p.channel }

/-- The pipeline with its ring changed. -/
def mapRing (p : Pipeline σ) (f : {g : Geometry} → Ring g → Ring g) : Pipeline σ :=
  p.mapChannel fun c => { c with ring := f c.ring }

/-! ### Calls of the sink -/

/-- One thing that a sink does to its channel. -/
def act (p : Pipeline σ) (now : UInt64) : Act → Pipeline σ
  | .publish encoded => p.mapRing fun r => (r.publish encoded).2
  | .publishAlone encoded => p.mapRing fun r => (r.publishAlone encoded).2
  | .commit next => p.mapRing (·.commit next)
  | .log entry =>
    let (channel, scratch) := p.channel.log p.scratch now entry
    { p with channel, scratch }

/-- What a call of the sink leaves behind, its outcome apart. -/
def accept (p : Pipeline σ) (now : UInt64) (reply : Sink.Reply σ) : Pipeline σ :=
  reply.acts.foldl (fun p a => p.act now a) { p with sink := reply.state }

/-- The reason reported when a sink panicked over a record. -/
def panicReason : String := "sink panicked"

/-- Hands a record to the sink and counts what came of it. -/
def handOver (sink : Sink σ) (p : Pipeline σ) (now : UInt64) (f : Frame) : Pipeline σ :=
  let reply := sink.write p.sink f
  let p := p.accept now reply
  match reply.outcome with
  | .ok => p.mapChannel (·.countDelivered)
  | .failed e => p.mapChannel fun c => c.countSinkFailure.reportSink now.toNat e.message
  | .panicked => p.mapChannel fun c => c.countSinkFailure.reportSink now.toNat panicReason

/-- Delivers what was copied out of the ring. -/
def deliver (sink : Sink σ) (p : Pipeline σ) (now : UInt64) : Ring.Reading → Pipeline σ
  | .overwritten => p.mapChannel (·.countSkipped)
  | .corrupt e => p.mapChannel (·.rejectFrame now.toNat e)
  | .ready bytes =>
    match Frame.decode bytes with
    | .error e => p.mapChannel (·.rejectFrame now.toNat e)
    | .ok f => handOver sink p now f

/-- Flushes the sink. -/
def flush (sink : Sink σ) (p : Pipeline σ) (now : UInt64) : Pipeline σ :=
  let reply := sink.flush p.sink
  let p := p.accept now reply
  match reply.outcome with
  | .ok => p
  | .failed e => p.mapChannel (·.reportSink now.toNat e.message)
  | .panicked => p.mapChannel (·.emit .flushPanicked)

/-! ### The loop -/

/-- One step of the consumer at the clock reading `now`. -/
def step (sink : Sink σ) (p : Pipeline σ) (now : UInt64) : Pipeline σ :=
  let ring := p.channel.ring
  match p.drain.phase with
  | .polling =>
    if p.drain.cursor < ring.published then p.enter (.catchingUp ring.published)
    else p.enter .idling
  | .catchingUp published =>
    let cursor := max (max p.drain.cursor ring.consumed) (ring.oldestRetained published)
    let phase := if published ≤ cursor then .polling else .reading
    { p with drain := { p.drain with cursor := cursor, phase := phase } }
  | .reading => p.enter (.releasing (ring.read p.drain.cursor p.channel.geometry.slotBytes))
  | .releasing found =>
    (p.mapRing (·.commit (p.drain.cursor + 1))).enter (.delivering found)
  | .delivering found =>
    let p := deliver sink p now found
    { p with drain := { cursor := p.drain.cursor + 1, unflushed := true, phase := .polling } }
  | .idling =>
    if !p.channel.running then p.enter .leaving
    else p.enter (if p.drain.unflushed then .flushing else .parked)
  | .leaving => p.enter (if ring.published ≤ p.drain.cursor then .closing else .polling)
  | .flushing =>
    let p := flush sink p now
    { p with drain := { p.drain with unflushed := false, phase := .parked } }
  | .parked => p.enter .polling
  | .closing =>
    let p := flush sink p now
    (p.mapChannel fun c => { c with finished := true }).enter (.ended sink.panicsAtEnd)
  | .ended _ => p

/-- The record that the consumer holds in its hands: it is out of the ring, and the sink has not
answered for it yet. -/
def inHand (p : Pipeline σ) : Option Frame :=
  match p.drain.phase with
  | .delivering (.ready bytes) => (Frame.decode bytes).toOption
  | _ => none

/-- Whether the consumer is done. -/
def isEnded (p : Pipeline σ) : Bool :=
  match p.drain.phase with
  | .ended _ => true
  | _ => false

/-- Lets the consumer work until it ends, parks, or is blocked in its sink; `fuel` bounds its steps
for a sink that keeps publishing. -/
def settleFrom (sink : Sink σ) (now : UInt64) (blocked : Bool) : Nat → Pipeline σ → Pipeline σ
  | 0, p => p
  | fuel + 1, p =>
    if p.isEnded || p.drain.phase = .parked || (blocked && p.inHand.isSome) then p
    else settleFrom sink now blocked fuel (p.step sink now)

/-- More steps than a consumer makes before it rests, unless its sink feeds itself forever. -/
def patience : Nat := 1000000

/-- Wakes the consumer if it is parked and lets it work until it rests again. While `blocked`, the
sink keeps every record that it is handed without an answer. -/
def settle (sink : Sink σ) (p : Pipeline σ) (now : UInt64) (blocked : Bool) : Pipeline σ :=
  settleFrom sink now blocked patience (if p.drain.phase = .parked then p.step sink now else p)

/-- Asks the consumer to stop. -/
def stop (p : Pipeline σ) : Pipeline σ := p.mapChannel fun c => { c with running := false }

/-- Runs a new consumer, told to stop from the beginning, to its end. -/
def finish (sink : Sink σ) (channel : Channel) (state : σ) (now : UInt64) : Pipeline σ :=
  settle sink (start channel state).stop now false

/-- Runs a new consumer until it has nothing left to read, then tells it to stop, and runs it to its
end. -/
def restThenFinish (sink : Sink σ) (channel : Channel) (state : σ) (now : UInt64) : Pipeline σ :=
  let running := channel.ring.consumed < channel.ring.published
  let p := settle sink (start { channel with running } state) now false
  settle sink p.stop now false

/-- A consumer that is done does nothing more. -/
theorem step_ended (sink : Sink σ) (p : Pipeline σ) (now : UInt64) (h : p.isEnded = true) :
    p.step sink now = p := by
  unfold isEnded at h
  split at h
  · next ended => simp only [step, ended]
  · simp at h

end Pipeline

end LogRelay
