/-
# Reading back what was encoded

A header states the length it was made with, as long as a signed number of 32 bits can. So the frame
in front of an encoding is that encoding, whatever stands behind it, and encodings written back to
back are read as the records they were made of, without an error and to the last byte.

Key theorems: `Frame.size_header_append`, `Frame.decode_encode_append`,
`FrameStream.readAll_encodings`.
-/
import LogRelay.Record.Stream

namespace LogRelay

theorem signed32_of_le {n : Nat} (h : n ≤ maxMessageLength) : signed32 n = n := by
  have : n < 0x80000000 := Nat.lt_succ_of_le h
  rw [signed32, if_pos this]

namespace Frame

variable (timestamp : UInt64) (severity : Severity) (component : UInt8) {length : Nat}

/-! ### The fields of a header -/

theorem declaredLength_bigEndian {front : Bytes} (place : front.length = Layout.lengthAt)
    (h : length ≤ maxMessageLength) (rest : Bytes) :
    declaredLength (front ++ bigEndian Layout.lengthSize length ++ rest) = length := by
  have fits : length < byteSpan Layout.lengthSize := Nat.lt_of_le_of_lt h (by decide)
  rw [declaredLength, List.append_assoc, List.drop_left' place,
    List.take_left' (length_bigEndian _ _), ofBigEndian_bigEndian, Nat.mod_eq_of_lt fits,
    signed32_of_le h]

theorem declaredLength_header_append (rest : Bytes) (h : length ≤ maxMessageLength) :
    declaredLength (header timestamp severity component length ++ rest) = length := by
  have place : (bigEndian Layout.timestampSize timestamp.toNat
      ++ [severity.rank, component]).length = Layout.lengthAt := by simp [Layout.lengthAt,
        Layout.componentAt, Layout.severityAt, Layout.timestampAt, Layout.timestampSize,
        Layout.componentSize, Layout.severitySize]
  exact declaredLength_bigEndian place h rest

/-- A header is accepted as the front of a frame exactly as long as it states, if there is room. -/
theorem size_header_append (rest : Bytes) {capacity : Nat} (h : length ≤ maxMessageLength)
    (fits : headerSize + length ≤ capacity) :
    size (header timestamp severity component length ++ rest) capacity =
      .ok (headerSize + length) := by
  rw [size_eq_ok_iff, declaredLength_header_append timestamp severity component rest h,
    List.length_append, length_header]
  omega

theorem severityByte_header_append (rest : Bytes) :
    severityByte (header timestamp severity component length ++ rest) = severity.rank := by
  rw [severityByte, header, List.append_assoc, List.append_assoc]
  rw [List.getD_eq_getElem?_getD, List.getElem?_append_right (by simp [Layout.severityAt,
    Layout.timestampAt, Layout.timestampSize])]
  simp [Layout.severityAt, Layout.timestampAt, Layout.timestampSize]

theorem componentByte_header_append (rest : Bytes) :
    (header timestamp severity component length ++ rest).getD Layout.componentAt 0 =
      component := by
  rw [header, List.append_assoc, List.append_assoc, List.getD_eq_getElem?_getD,
    List.getElem?_append_right (by simp [Layout.componentAt, Layout.severityAt,
      Layout.timestampAt, Layout.timestampSize])]
  simp [Layout.componentAt, Layout.severityAt, Layout.severitySize, Layout.timestampAt,
    Layout.timestampSize]

theorem timestamp_header_append (rest : Bytes) :
    UInt64.ofNat (ofBigEndian ((header timestamp severity component length ++ rest).take
      Layout.timestampSize)) = timestamp := by
  have fits : timestamp.toNat < byteSpan Layout.timestampSize :=
    Nat.lt_of_lt_of_le timestamp.toNat_lt (by decide)
  rw [header, List.append_assoc, List.append_assoc, List.take_left' (length_bigEndian _ _),
    ofBigEndian_bigEndian, Nat.mod_eq_of_lt fits, UInt64.ofNat_toNat]

/-! ### Whole encodings -/

/-- The record that fills its own encoding. -/
theorem recordOf_encode (r : Record) : recordOf r.severity r.encode = r := by
  rw [recordOf, Record.encode, timestamp_header_append, componentByte_header_append,
    List.drop_left' (length_header _ _ _ _)]

/-- The frame in front of an encoding is the encoding, whatever stands behind it. -/
theorem decode_encode_append {r : Record} (h : r.message.length ≤ maxMessageLength)
    (tail : Bytes) : decode (r.encode ++ tail) = .ok ⟨r, r.encode⟩ := by
  have split : r.encode ++ tail =
      header r.timestamp r.severity r.component r.message.length ++ (r.message ++ tail) := by
    rw [Record.encode, List.append_assoc]
  have sized : size (r.encode ++ tail) (r.encode ++ tail).length = .ok r.encode.length := by
    rw [Record.length_encode, List.length_append, Record.length_encode, split]
    exact size_header_append _ _ _ _ h (Nat.le_add_right _ _)
  have rank : severityByte (r.encode ++ tail) = r.severity.rank := by
    rw [split, severityByte_header_append]
  rw [decode, sized]
  simp only [rank, Severity.ofRank?_rank, List.take_left, recordOf_encode]

theorem decode_encode {r : Record} (h : r.message.length ≤ maxMessageLength) :
    decode r.encode = .ok ⟨r, r.encode⟩ := by
  have := decode_encode_append h []
  rwa [List.append_nil] at this

end Frame

/-! ### Encodings back to back -/

namespace FrameStream

theorem front_encode_append {r : Record} (h : r.message.length ≤ maxMessageLength)
    (rest : Bytes) : front (r.encode ++ rest) = .ok ⟨r, r.encode⟩ := by
  have declared : Frame.declaredLength (r.encode ++ rest) = r.message.length := by
    rw [Record.encode, List.append_assoc, Frame.declaredLength_header_append _ _ _ _ h]
  have total : headerSize + ((r.message.length : Int)).toNat = r.encode.length := by
    rw [Record.length_encode, Int.toNat_natCast]
  have long : ¬ (r.encode ++ rest).length < r.encode.length := by
    rw [List.length_append]; omega
  have head : ¬ (r.encode ++ rest).length < headerSize := by
    rw [Record.length_encode] at long; omega
  simp only [front, declared, total, if_neg head, if_neg long, List.take_left,
    Frame.decode_encode h]
  rw [if_neg (by omega)]

theorem next_encode_append {r : Record} (h : r.message.length ≤ maxMessageLength) (rest : Bytes)
    (position : Nat) :
    next ⟨r.encode ++ rest, position, false⟩ =
      (some (.ok ⟨r, r.encode⟩), ⟨rest, position + r.encode.length, false⟩) := by
  have some : r.encode ++ rest ≠ [] := by
    intro nil
    have := congrArg List.length nil
    rw [List.length_append, Record.length_encode, List.length_nil, headerSize] at this
    omega
  simp only [next, front_encode_append h, List.drop_left, Bool.false_eq_true, false_or,
    if_neg some]

theorem readAll_of_next {s t : FrameStream} {item : Except FrameError Frame}
    (h : s.next = (some item, t)) : s.readAll = (item :: t.readAll.1, t.readAll.2) := by
  rw [readAll]
  split
  · next nothing => rw [h] at nothing; simp at nothing
  · next found =>
    obtain ⟨rfl, rfl⟩ : item = _ ∧ t = _ := by simpa using h.symm.trans found
    rfl

/-- **Nothing written is lost in reading.** A stream of encodings is read as their records, one
frame each, and ends without an error behind the last of them. -/
theorem readAll_encodings : ∀ (rs : List Record) (position : Nat),
    (∀ r ∈ rs, r.message.length ≤ maxMessageLength) →
      readAll ⟨rs.flatMap Record.encode, position, false⟩ =
        (rs.map fun r => .ok ⟨r, r.encode⟩,
          ⟨[], position + (rs.flatMap Record.encode).length, false⟩)
  | [], position, _ => by
    rw [readAll]
    simp [next]
  | r :: rs, position, h => by
    have rest := readAll_encodings rs (position + r.encode.length)
      fun q hq => h q (List.mem_cons_of_mem r hq)
    have first := next_encode_append (h r List.mem_cons_self) (rs.flatMap Record.encode) position
    rw [List.flatMap_cons, readAll_of_next first, rest, List.map_cons, List.length_append,
      Nat.add_assoc]

end FrameStream

end LogRelay
