/-
# Scripted sinks

A sink whose behaviour is laid down beforehand: for the text of each message, what it does to the
channel and how the call ends. It keeps the records it took and counts its flushes. A scripted sink
shows how a relay copes with sinks that fail, panic, log, or publish more than the ring holds.

`refusing` is the simplest sink with a mind of its own: it refuses one text and adds up the sizes of
all other messages.

Key definitions: `Reaction`, `Notebook`, `scriptedSink`, `refusingSink`.
-/
import LogRelay.Sink.Basic

namespace LogRelay

/-- What a scripted sink does with a record. It keeps the record if the call ends well. -/
structure Reaction where
  acts : List Act := []
  outcome : Outcome := .ok

/-- What a scripted sink remembers. -/
structure Notebook where
  /-- The records it took, in order. -/
  stored : List Frame := []
  /-- How often it was flushed. -/
  flushes : Nat := 0
  /-- How its flushes end. -/
  flushOutcome : Outcome := .ok
  deriving DecidableEq, Repr

/-- The sink that reacts to each message text as laid down. -/
def scriptedSink (react : String → Reaction) (panicsAtEnd : Bool) : Sink Notebook where
  write s f :=
    let reaction := react f.text
    { state := if reaction.outcome = .ok then { s with stored := s.stored ++ [f] } else s
      acts := reaction.acts
      outcome := reaction.outcome }
  flush s := { state := { s with flushes := s.flushes + 1 }, outcome := s.flushOutcome }
  panicsAtEnd := panicsAtEnd

/-- The sink that refuses the message `refused` and adds up the sizes of all others. -/
def refusingSink (refused : Bytes) (error : OutputError) : Sink Nat :=
  Sink.ofWrite fun total f =>
    if f.record.message = refused then (.error error, total)
    else (.ok (), total + f.record.message.length)

end LogRelay
