/-
# Frames

A frame is an encoded record found in front of some bytes. Nothing in the bytes is trusted: the
length field is read as a signed number and has to fit into what is there, and the severity byte has
to stand for a severity. The length is checked before the severity, so bytes with both faults are
refused for their length. Bytes behind the frame do not matter.

Key definitions: `FrameError`, `Frame`, `Frame.size`, `Frame.decode`, `Frame.line`.
Key theorems: `Frame.size_eq_ok_iff`, `Frame.bytes_of_decode`.
-/
import LogRelay.Record.Basic
import LogRelay.Text.Utf8

namespace LogRelay

/-- Why bytes do not begin with an encoded record. -/
inductive FrameError
  /-- There are fewer bytes than the frame needs. -/
  | truncated (needed available : Nat)
  /-- The severity byte stands for no severity. -/
  | unknownSeverity (byte : UInt8)
  /-- The length field is negative or says more than is there. -/
  | lengthMismatch (declared : Int) (available : Nat)
  deriving DecidableEq, Repr

/-- The wording of an error. -/
def FrameError.message : FrameError → String
  | truncated needed available =>
    "record truncated: need " ++ toString needed ++ " bytes, have " ++ toString available
  | unknownSeverity byte => "unknown level byte " ++ toString byte.toNat
  | lengthMismatch declared available =>
    "length field " ++ toString declared ++ " does not fit in " ++ toString available
      ++ " available bytes"

/-- An encoded record together with what it says. -/
structure Frame where
  record : Record
  bytes : Bytes
  deriving DecidableEq, Repr

namespace Frame

/-- The message length that a header states. -/
def declaredLength (head : Bytes) : Int :=
  signed32 (ofBigEndian ((head.drop Layout.lengthAt).take Layout.lengthSize))

/-- The byte at the place of the severity. -/
def severityByte (bytes : Bytes) : UInt8 := bytes.getD Layout.severityAt 0

/-- The size of the frame whose header is `head`, if it is at most `capacity`. -/
def size (head : Bytes) (capacity : Nat) : Except FrameError Nat :=
  if head.length < headerSize ∨ capacity < headerSize then
    .error (.truncated headerSize (min head.length capacity))
  else
    let declared := declaredLength head
    let available := capacity - headerSize
    if 0 ≤ declared ∧ declared ≤ available then .ok (headerSize + declared.toNat)
    else .error (.lengthMismatch declared available)

/-- The record of severity `severity` that fills `bytes`. -/
def recordOf (severity : Severity) (bytes : Bytes) : Record where
  timestamp := UInt64.ofNat (ofBigEndian (bytes.take Layout.timestampSize))
  severity := severity
  component := bytes.getD Layout.componentAt 0
  message := bytes.drop headerSize

/-- The frame at the front of `bytes`. -/
def decode (bytes : Bytes) : Except FrameError Frame :=
  match size bytes bytes.length with
  | .error e => .error e
  | .ok total =>
    match Severity.ofRank? (severityByte bytes) with
    | none => .error (.unknownSeverity (severityByte bytes))
    | some severity => .ok ⟨recordOf severity (bytes.take total), bytes.take total⟩

/-- The message as text. -/
def text (f : Frame) : String := decodeUtf8 f.record.message

/-- The component and the message as text. -/
def label (f : Frame) : String :=
  "[Component-" ++ toString f.record.component.toNat ++ "] " ++ f.text

/-- The frame as one line of a log. -/
def line (f : Frame) : String :=
  "[" ++ toString f.record.timestamp.toNat ++ "] [" ++ f.record.severity.name ++ "] " ++ f.label

/-- When a frame is accepted, and with which size. -/
theorem size_eq_ok_iff {head : Bytes} {capacity total : Nat} :
    size head capacity = .ok total ↔
      headerSize ≤ head.length ∧ headerSize ≤ capacity ∧ 0 ≤ declaredLength head ∧
        headerSize + (declaredLength head).toNat ≤ capacity ∧
        total = headerSize + (declaredLength head).toNat := by
  simp only [size]
  split
  · simp; omega
  · split
    · simp only [Except.ok.injEq]; omega
    · simp only [reduceCtorEq, false_iff]; omega

/-- An accepted frame lies inside the capacity. -/
theorem le_of_size {head : Bytes} {capacity total : Nat} (h : size head capacity = .ok total) :
    headerSize ≤ total ∧ total ≤ capacity := by
  have := size_eq_ok_iff.1 h
  omega

/-- A frame is the front of the bytes it was found in. -/
theorem bytes_of_decode {bytes : Bytes} {f : Frame} (h : decode bytes = .ok f) :
    ∃ total, size bytes bytes.length = .ok total ∧ f.bytes = bytes.take total := by
  unfold decode at h
  split at h
  · simp at h
  · next total sized =>
    split at h
    · simp at h
    · simp only [Except.ok.injEq] at h
      exact ⟨total, sized, by rw [← h]⟩

/-- A frame holds at least its header, so whoever reads frame after frame gets on. -/
theorem headerSize_le_of_decode {bytes : Bytes} {f : Frame} (h : decode bytes = .ok f) :
    headerSize ≤ f.bytes.length := by
  obtain ⟨total, sized, front⟩ := bytes_of_decode h
  have := le_of_size sized
  rw [front, List.length_take]
  omega

end Frame

end LogRelay
