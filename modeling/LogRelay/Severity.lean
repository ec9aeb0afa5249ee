/-
# Severities

The five severities of a log record, from `trace` to `error`. Each has a rank, the byte 1 to 5 that
stands for it in an encoded record, and a name. The order of severities is the order of ranks, and
a threshold admits every severity that is at least as severe.

Key definitions: `Severity`, `Severity.rank`, `Severity.ofRank?`, `Severity.name`,
`Severity.ofName?`, `Severity.reaches`.
Key theorem: `Severity.ofRank?_rank`.
-/

namespace LogRelay

/-- How serious a record is. -/
inductive Severity
  | trace
  | debug
  | info
  | warn
  | error
  deriving DecidableEq, Repr

namespace Severity

/-- All severities, least severe first. -/
def all : List Severity := [trace, debug, info, warn, error]

/-- The byte that stands for a severity: 1 for `trace` up to 5 for `error`. -/
def rank : Severity → UInt8
  | trace => 1
  | debug => 2
  | info => 3
  | warn => 4
  | error => 5

/-- The severity that a byte stands for, if any. -/
def ofRank? (byte : UInt8) : Option Severity :=
  all.find? fun s => s.rank == byte

/-- The upper-case name of a severity. -/
def name : Severity → String
  | trace => "TRACE"
  | debug => "DEBUG"
  | info => "INFO"
  | warn => "WARN"
  | error => "ERROR"

/-- The name of a severity with only its first letter in upper case. -/
def title : Severity → String
  | trace => "Trace"
  | debug => "Debug"
  | info => "Info"
  | warn => "Warn"
  | error => "Error"

/-- The severity of a given name. The case of ASCII letters does not matter, all else does. -/
def ofName? (text : String) : Option Severity :=
  all.find? fun s => s.name == text.toUpper

/-- Whether a record of severity `s` passes a filter set to `threshold`. -/
def reaches (s threshold : Severity) : Bool := threshold.rank ≤ s.rank

instance : Ord Severity := ⟨fun a b => compare a.rank b.rank⟩

/-- The more severe of two severities. -/
instance : Max Severity := ⟨fun a b => if b.reaches a then b else a⟩

@[simp] theorem ofRank?_rank : ∀ s : Severity, ofRank? s.rank = some s := by
  intro s; cases s <;> rfl

end Severity

/-- A name that is the name of no severity. -/
structure UnknownSeverity where
  name : String
  deriving DecidableEq, Repr

/-- The wording of the complaint about an unknown name. -/
def UnknownSeverity.message (e : UnknownSeverity) : String :=
  "unknown log level: " ++ e.name

/-- The severity of a given name, or the complaint about it. -/
def Severity.parse (text : String) : Except UnknownSeverity Severity :=
  match ofName? text with
  | some s => .ok s
  | none => .error ⟨text⟩

end LogRelay
