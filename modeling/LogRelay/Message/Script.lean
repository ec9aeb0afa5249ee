/-
# Scripts

Formatting a message runs code of the caller: values write text piece by piece, may refuse, may
panic, and may log something themselves while they are being formatted. A script is the record of
what that code does. An entry is one call of a writer: a severity, a component, and a message that
is given as bytes or by a script.

A thread may write to several channels, `n` of them; a heading says to which one an entry goes.

Key definitions: `Heading`, `Heading.solo`, `Script`, `Entry`, `Script.ofTexts`.
-/
import LogRelay.Record.Basic
import LogRelay.Text.Utf8

namespace LogRelay

/-- Where an entry goes and what is known of it before its message. -/
structure Heading (n : Nat) where
  channel : Fin n
  severity : Severity
  component : UInt8

/-- The heading of an entry where there is only one channel. -/
def Heading.solo (severity : Severity) (component : UInt8) : Heading 1 := ⟨0, severity, component⟩

/-- What formatting a message does, step by step. -/
inductive Script (n : Nat)
  /-- Nothing more: the message is complete. -/
  | done
  /-- A value refuses to be formatted. -/
  | refuses
  /-- A value panics. -/
  | panics
  /-- A value writes a piece of text. -/
  | text (piece : String) (rest : Script n)
  /-- A value logs a message of its own. -/
  | logs (heading : Heading n) (message : Bytes) (rest : Script n)
  /-- A value logs a message of its own that has to be formatted. -/
  | formats (heading : Heading n) (inner rest : Script n)

/-- The script that only writes pieces of text. -/
def Script.ofTexts {n : Nat} : List String → Script n
  | [] => .done
  | piece :: rest => .text piece (ofTexts rest)

/-- One call of a writer. -/
inductive Entry (n : Nat)
  | bytes (heading : Heading n) (message : Bytes)
  | formatted (heading : Heading n) (script : Script n)

namespace Entry

/-- An entry whose message is a text. -/
def text {n : Nat} (heading : Heading n) (message : String) : Entry n :=
  bytes heading (utf8 message)

/-- The heading of an entry. -/
def heading {n : Nat} : Entry n → Heading n
  | bytes h _ => h
  | formatted h _ => h

end Entry

end LogRelay
