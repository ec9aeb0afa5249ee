/-
# The facade sink

Hands every record on to another logging system, under a target name. The other system is asked
first whether it wants records of that severity; what it does not want is not even put into words.

Key definitions: `Facade`, `Facade.Call`, `Facade.sink`.
-/
import LogRelay.Sink.Basic

namespace LogRelay

namespace Facade

/-- What another logging system is asked to do. -/
inductive Call
  | log (severity : Severity) (target text : String)
  | flush
  deriving DecidableEq, Repr

end Facade

/-- Another logging system: the least severity that it wants, if it wants any, and what it was asked
to do. -/
structure Facade where
  threshold : Option Severity
  calls : List Facade.Call := []
  deriving DecidableEq, Repr

namespace Facade

/-- The target of records for which none is given. -/
def defaultTarget : String := "ring_logger"

/-- Whether the other system wants records of a severity. -/
def wants (s : Facade) (severity : Severity) : Bool :=
  match s.threshold with
  | some threshold => severity.reaches threshold
  | none => false

/-- Hands a record on. -/
def forward (s : Facade) (target : String) (f : Frame) : Facade :=
  if s.wants f.record.severity then
    { s with calls := s.calls ++ [.log f.record.severity target f.label] }
  else s

/-- The sink that hands records on under `target`. -/
def sink (target : String) : Sink Facade where
  write s f := { state := s.forward target f }
  flush s := { state := { s with calls := s.calls ++ [.flush] } }

end Facade

end LogRelay
