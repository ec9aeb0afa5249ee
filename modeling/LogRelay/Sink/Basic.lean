/-
# Sinks

A sink takes the records that the consumer delivers, one at a time, and is flushed now and then. It
may fail and it may panic; neither costs more than the record at hand. A sink has a state of its own
that only it looks at. While it takes a record or is flushed it may also act on the channel that
feeds it: publish more records, mark records as consumed, log.

Key definitions: `Outcome`, `Act`, `Sink`, `Sink.ofWrite`.
-/
import LogRelay.Failure
import LogRelay.Message.Script
import LogRelay.Record.Frame

namespace LogRelay

/-- How a call of a sink ends. -/
inductive Outcome
  | ok
  | failed (error : OutputError)
  | panicked
  deriving DecidableEq, Repr

/-- The outcome of a call that may fail. -/
def Outcome.ofExcept : Except OutputError Unit → Outcome
  | .ok () => .ok
  | .error e => .failed e

/-- What a sink does to the channel that feeds it. -/
inductive Act
  /-- Publishes an encoded record. -/
  | publish (encoded : Bytes)
  /-- Publishes an encoded record without a claim. -/
  | publishAlone (encoded : Bytes)
  /-- Marks everything below `next` as consumed. -/
  | commit (next : Nat)
  /-- Logs an entry. -/
  | log (entry : Entry 1)

/-- What a call of a sink comes to. -/
structure Sink.Reply (σ : Type) where
  /-- The sink's state afterwards. -/
  state : σ
  /-- What it did to the channel, in order. -/
  acts : List Act := []
  /-- How the call ended. -/
  outcome : Outcome := .ok

/-- A sink with states in `σ`. -/
structure Sink (σ : Type) where
  /-- Takes one record. -/
  write : σ → Frame → Sink.Reply σ
  /-- Makes sure that nothing taken so far is held back. -/
  flush : σ → Sink.Reply σ := fun s => { state := s }
  /-- Whether the sink panics when the consumer thread lets go of it. -/
  panicsAtEnd : Bool := false

/-- A sink from a function that takes records, with nothing to flush. -/
def Sink.ofWrite {σ : Type} (write : σ → Frame → Except OutputError Unit × σ) : Sink σ where
  write s f := { state := (write s f).2, outcome := Outcome.ofExcept (write s f).1 }

end LogRelay
