/-
# Records

A record is one log entry: when it was written, how severe it is, which component wrote it, and its
message, which may be any bytes. An encoded record is a header of fourteen bytes and the message
behind it, all numbers with their most significant byte first:

  0..8 timestamp    8 severity    9 component    10..14 message length    14.. message

Writing a record into a buffer cuts the message to the room behind the header and leaves the rest of
the buffer as it was.

Key definitions: `Record`, `header`, `Record.encode`, `messageRoom`, `storeHeader`, `Record.store`.
Key theorems: `length_header`, `Record.length_encode`, `Record.store_eq_none_iff`,
`Record.length_store`.
-/
import LogRelay.Bytes
import LogRelay.Severity

namespace LogRelay

/-- One log entry. -/
structure Record where
  timestamp : UInt64
  severity : Severity
  component : UInt8
  message : Bytes
  deriving DecidableEq, Repr

/-! ### Layout -/

namespace Layout

/-- Bytes of the timestamp. -/
def timestampSize : Nat := 8

/-- Bytes of the severity. -/
def severitySize : Nat := 1

/-- Bytes of the component. -/
def componentSize : Nat := 1

/-- Bytes of the message length. -/
def lengthSize : Nat := 4

/-- Where the timestamp begins. -/
def timestampAt : Nat := 0

/-- Where the severity stands. -/
def severityAt : Nat := timestampAt + timestampSize

/-- Where the component stands. -/
def componentAt : Nat := severityAt + severitySize

/-- Where the message length begins. -/
def lengthAt : Nat := componentAt + componentSize

/-- Where the message begins. -/
def messageAt : Nat := lengthAt + lengthSize

end Layout

/-- Bytes in front of the message. -/
def headerSize : Nat := 14

/-- The header ends where the message begins. -/
theorem messageAt_eq_headerSize : Layout.messageAt = headerSize := rfl

/-- The longest message whose length a record can state: the greatest signed 32-bit number. -/
def maxMessageLength : Nat := 0x7FFFFFFF

/-- The header of a record whose message has `length` bytes. -/
def header (timestamp : UInt64) (severity : Severity) (component : UInt8) (length : Nat) : Bytes :=
  bigEndian Layout.timestampSize timestamp.toNat ++ [severity.rank, component]
    ++ bigEndian Layout.lengthSize length

@[simp] theorem length_header (timestamp : UInt64) (severity : Severity) (component : UInt8)
    (length : Nat) : (header timestamp severity component length).length = headerSize := by
  simp [header, Layout.timestampSize, Layout.lengthSize, headerSize]

namespace Record

/-- The encoding of a record with its whole message. -/
def encode (r : Record) : Bytes :=
  header r.timestamp r.severity r.component r.message.length ++ r.message

@[simp] theorem length_encode (r : Record) : r.encode.length = headerSize + r.message.length := by
  simp [encode]

/-- The record with its message cut to its first `n` bytes. -/
def cut (r : Record) (n : Nat) : Record := { r with message := r.message.take n }

end Record

/-! ### Writing into a buffer -/

/-- The greatest message length for which a record fits into `capacity` bytes. -/
def messageRoom (capacity : Nat) : Nat := capacity - headerSize

/-- The buffer with a header at its front; nothing if the header does not fit. -/
def storeHeader (buffer : Bytes) (timestamp : UInt64) (severity : Severity) (component : UInt8)
    (length : Nat) : Option Bytes :=
  if buffer.length < headerSize then none
  else some (overlay 0 (header timestamp severity component length) buffer)

namespace Record

/-- How much of a message is stored in a buffer of `capacity` bytes. -/
def storedLength (r : Record) (capacity : Nat) : Nat :=
  min (min r.message.length (messageRoom capacity)) maxMessageLength

/-- Writes a record to the front of `buffer`, its message cut to the room there: the count of bytes
written and the buffer afterwards. Nothing is written if not even the header fits. -/
def store (r : Record) (buffer : Bytes) : Option (Nat × Bytes) :=
  if buffer.length < headerSize then none
  else
    let kept := r.cut (r.storedLength buffer.length)
    some (kept.encode.length, overlay 0 kept.encode buffer)

theorem store_eq_none_iff (r : Record) (buffer : Bytes) :
    r.store buffer = none ↔ buffer.length < headerSize := by
  simp [store]

/-- Storing a record never changes the size of the buffer, and writes inside it. -/
theorem length_store {r : Record} {buffer after : Bytes} {n : Nat}
    (h : r.store buffer = some (n, after)) : after.length = buffer.length ∧ n ≤ buffer.length := by
  unfold store at h
  split at h
  · simp at h
  · next room =>
    simp only [Option.some.injEq, Prod.mk.injEq] at h
    have fits : (r.cut (r.storedLength buffer.length)).encode.length ≤ buffer.length := by
      simp only [length_encode, cut, storedLength, messageRoom, List.length_take]
      omega
    obtain ⟨rfl, rfl⟩ := h
    exact ⟨length_overlay (by omega), fits⟩

end Record

end LogRelay
