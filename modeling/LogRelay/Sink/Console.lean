/-
# The console sink

Writes every record as a line: records of severity `error` to the error channel of the console, all
others to its output channel.

Key definitions: `Console`, `Console.print`, `Console.sink`.
-/
import LogRelay.Sink.Basic

namespace LogRelay

/-- What was written to a console. -/
structure Console where
  output : String := ""
  errors : String := ""
  deriving DecidableEq, Repr

namespace Console

/-- Prints a record as a line. -/
def print (c : Console) (f : Frame) : Console :=
  if f.record.severity.reaches .error then { c with errors := c.errors ++ f.line ++ "\n" }
  else { c with output := c.output ++ f.line ++ "\n" }

/-- The sink that prints to a console. -/
def sink : Sink Console where
  write c f := { state := c.print f }

end Console

end LogRelay
