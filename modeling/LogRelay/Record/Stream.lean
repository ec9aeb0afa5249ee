/-
# Streams of frames

Frames written back to back are read one at a time from the front. A stream that ends inside a frame
says how much of that frame is there; a header that cannot be right stops the stream. After an error
nothing more is read and the position stays at the front of the rejected frame.

Key definitions: `FrameStream`, `FrameStream.front`, `FrameStream.next`, `FrameStream.readAll`.
Key theorems: `FrameStream.left_next`, `FrameStream.next_of_failed`.
-/
import LogRelay.Record.Frame

namespace LogRelay

/-- A stream of frames that is being read. -/
structure FrameStream where
  /-- The bytes that are not read yet. -/
  rest : Bytes
  /-- How many bytes are read. -/
  position : Nat := 0
  /-- Whether the stream stopped at an error. -/
  failed : Bool := false
  deriving DecidableEq, Repr

namespace FrameStream

/-- The stream over `data`. -/
def ofBytes (data : Bytes) : FrameStream := ⟨data, 0, false⟩

/-- The frame at the front of `rest`, which has to be there in full. -/
def front (rest : Bytes) : Except FrameError Frame :=
  if rest.length < headerSize then .error (.truncated headerSize rest.length)
  else
    let declared := Frame.declaredLength rest
    if declared < 0 then .error (.lengthMismatch declared (rest.length - headerSize))
    else
      let total := headerSize + declared.toNat
      if rest.length < total then .error (.truncated total rest.length)
      else Frame.decode (rest.take total)

/-- Reads one frame: nothing at the end of the stream and after an error. -/
def next (s : FrameStream) : Option (Except FrameError Frame) × FrameStream :=
  if s.failed ∨ s.rest = [] then (none, s)
  else
    match front s.rest with
    | .error e => (some (.error e), { s with failed := true })
    | .ok f =>
      (some (.ok f),
        { s with rest := s.rest.drop f.bytes.length, position := s.position + f.bytes.length })

/-- A frame that was read holds at least a header and lies inside the stream. -/
theorem length_of_front {rest : Bytes} {f : Frame} (h : front rest = .ok f) :
    headerSize ≤ f.bytes.length ∧ f.bytes.length ≤ rest.length := by
  simp only [front] at h
  split at h
  · simp at h
  · split at h
    · simp at h
    · split at h
      · simp at h
      · refine ⟨Frame.headerSize_le_of_decode h, ?_⟩
        obtain ⟨total, _, front⟩ := Frame.bytes_of_decode h
        rw [front, List.length_take, List.length_take]
        omega

/-- What reading makes smaller: the bytes left, and once more when the stream stops. -/
def left (s : FrameStream) : Nat := if s.failed then 0 else s.rest.length

/-- Whoever reads something has less left to read. -/
theorem left_next {s t : FrameStream} {item : Except FrameError Frame}
    (h : s.next = (some item, t)) : t.left < s.left := by
  unfold next at h
  split at h
  · simp at h
  · next ready =>
    have fresh : s.failed = false := by simpa using fun f => ready (Or.inl f)
    have some : 0 < s.rest.length := List.length_pos_iff.2 fun e => ready (Or.inr e)
    split at h
    · simp only [Prod.mk.injEq] at h
      simp [← h.2, left, fresh, some]
    · next f found =>
      have size := length_of_front found
      simp only [Prod.mk.injEq] at h
      simp only [← h.2, left, fresh, List.length_drop, headerSize] at size ⊢
      simp only [Bool.false_eq_true, if_false]
      omega

/-- Everything that is left in the stream, and the stream at its end. -/
def readAll (s : FrameStream) : List (Except FrameError Frame) × FrameStream :=
  match _h : s.next with
  | (none, t) => ([], t)
  | (some item, t) =>
    let more := readAll t
    (item :: more.1, more.2)
termination_by s.left
decreasing_by all_goals exact left_next (by assumption)

theorem next_of_failed {s : FrameStream} (h : s.failed = true) : s.next = (none, s) := by
  simp [next, h]

end FrameStream

end LogRelay
