/-
# Failures

What can go wrong outside the records themselves: an output refuses bytes, a message cannot be
written, a relay cannot be started or does not stop in time. Each failure is a cause; its wording is
one function of the cause. What is to be made may also fail without an answer, in a panic.

Key definitions: `OutputError`, `WriteFault`, `RelayError`, and their `message`s; `Failure`.
-/

namespace LogRelay

/-- The kinds of an output's failures. -/
inductive OutputErrorKind
  | other
  | writeZero
  | invalidData
  deriving DecidableEq, Repr

/-- The failure of an output. -/
structure OutputError where
  kind : OutputErrorKind
  message : String
  deriving DecidableEq, Repr

namespace OutputError

/-- A failure of no particular kind. -/
def other (message : String) : OutputError := ⟨.other, message⟩

/-- The output took none of the bytes offered. -/
def writeZero : OutputError := ⟨.writeZero, "failed to write whole buffer"⟩

end OutputError

/-- Why a write was given up before a record was published. -/
inductive WriteFault
  /-- The thread is composing another record. -/
  | reentrant
  /-- The thread has given its buffer back already. -/
  | tornDown
  /-- A value refused to be formatted. -/
  | formatting
  /-- Formatting a value panicked. -/
  | panicked
  deriving DecidableEq, Repr

/-- The wording of a write fault. -/
def WriteFault.message : WriteFault → String
  | reentrant => "scratch buffer already in use on this thread (re-entrant write)"
  | tornDown => "thread-local scratch buffer unavailable during thread teardown"
  | formatting => "formatting the message failed"
  | panicked => "panic while formatting the message"

/-- Why a relay cannot be started or stopped. -/
inductive RelayError
  /-- The settings are not usable, for the reason given. -/
  | settings (reason : String)
  /-- No consumer thread could be started. -/
  | spawn (cause : OutputError)
  /-- The consumer was not done in time. -/
  | shutdownTimeout (pending : Nat)
  /-- The relay was stopped before. -/
  | alreadyShutDown
  deriving DecidableEq, Repr

namespace RelayError

/-- The wording of an error. -/
def message : RelayError → String
  | settings reason => "invalid configuration: " ++ reason
  | spawn cause => "failed to spawn consumer thread: " ++ cause.message
  | shutdownTimeout pending =>
    "consumer did not drain within the shutdown timeout (" ++ toString pending
      ++ " records pending)"
  | alreadyShutDown => "logger already shut down"

/-- The failure behind an error, if there is one. -/
def cause? : RelayError → Option OutputError
  | spawn cause => some cause
  | _ => none

end RelayError

/-- How making something fails. -/
inductive Failure (ε : Type)
  /-- The caller is given an error. -/
  | refused (error : ε)
  | panicked
  deriving DecidableEq, Repr

end LogRelay
