/-
# The collecting sink

Keeps every record, in the order in which they were delivered.

Key definitions: `Collector`, `Collector.sink`, `Collector.messages`.
-/
import LogRelay.Sink.Basic

namespace LogRelay

/-- The records delivered so far. -/
structure Collector where
  records : List Record := []
  deriving DecidableEq, Repr

namespace Collector

/-- The sink that keeps every record. -/
def sink : Sink Collector where
  write c f := { state := ⟨c.records ++ [f.record]⟩ }

/-- The messages as texts. -/
def messages (c : Collector) : List String := c.records.map fun r => decodeUtf8 r.message

/-- How many records there are. -/
def length (c : Collector) : Nat := c.records.length

/-- Whether `count` records are there. -/
def holds (c : Collector) (count : Nat) : Bool := count ≤ c.length

/-- Forgets all records. -/
def clear (_ : Collector) : Collector := {}

end Collector

end LogRelay
