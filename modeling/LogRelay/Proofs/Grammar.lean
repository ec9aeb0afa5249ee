/-
# Which bytes are a record

Bytes are accepted exactly if they begin with the encoding of a record: then there is one such
record and one tail behind it, and to store the record again gives the bytes back. Everything else
is refused for the first fault in this order: there is no room for a header, the stated length is
negative or more than is there, the severity byte stands for no severity.

A record that is stored in a buffer is found again in the bytes written, and in the whole buffer
with whatever it held before behind them.

Both rest on one fact about headers: what a header says determines its bytes (`take_eq_header`).

Key definitions: `Frame.lengthWord`, `Record.Leads`, `Frame.IsUnfit`, `Frame.Verdict`,
`Frame.Judged`, `Record.afterStore`.
Key theorems: `Frame.take_eq_header`, `Frame.exists_leads`, `Frame.decode_eq_iff`,
`Frame.decode_judges`, `Record.store_eq`, `Record.decode_afterStore`.
-/
import LogRelay.Proofs.Codec
import Mathlib.Data.List.GetD

namespace LogRelay

theorem signed32_eq_toInt {word : Nat} (h : word < 0x100000000) :
    signed32 word = (BitVec.ofNat 32 word).toInt := by
  have small : (BitVec.ofNat 32 word).toNat = word := by
    rw [BitVec.toNat_ofNat]
    exact Nat.mod_eq_of_lt h
  rw [BitVec.toInt_eq_toNat_cond, small, signed32]
  by_cases low : word < 0x80000000
  · rw [if_pos low, if_pos (by omega)]
  · rw [if_neg low, if_neg (by omega)]
    rfl

theorem Severity.ofRank?_eq_none_iff {byte : UInt8} :
    ofRank? byte = none ↔ ∀ s : Severity, s.rank ≠ byte := by
  constructor
  · intro none s rank
    rw [← rank, ofRank?_rank] at none
    cases none
  · intro unknown
    rw [ofRank?, List.find?_eq_none]
    intro s _ found
    exact unknown s (by simpa using found)

/-! ### What a header says -/

namespace Frame

variable {bytes : Bytes} {severity : Severity} {length : Nat}

/-- The field in which a header states the length of its message. -/
def lengthField (bytes : Bytes) : Bytes := (bytes.drop Layout.lengthAt).take Layout.lengthSize

/-- What stands in that field, as a word of 32 bits. -/
def lengthWord (bytes : Bytes) : BitVec 32 := .ofNat 32 (ofBigEndian (lengthField bytes))

theorem length_lengthField (long : headerSize ≤ bytes.length) :
    (lengthField bytes).length = Layout.lengthSize := by
  have field : Layout.lengthAt + Layout.lengthSize ≤ bytes.length := long
  rw [lengthField, List.length_take, List.length_drop]
  omega

theorem lengthField_lt (long : headerSize ≤ bytes.length) :
    ofBigEndian (lengthField bytes) < 0x100000000 := by
  have small := ofBigEndian_lt (lengthField bytes)
  rwa [length_lengthField long] at small

theorem declaredLength_eq_toInt (long : headerSize ≤ bytes.length) :
    declaredLength bytes = (lengthWord bytes).toInt :=
  signed32_eq_toInt (lengthField_lt long)

theorem declaredLength_le (long : headerSize ≤ bytes.length) :
    declaredLength bytes ≤ maxMessageLength := by
  have small := lengthField_lt long
  have most : maxMessageLength = 0x7FFFFFFF := rfl
  rw [declaredLength, ← lengthField, signed32]
  split <;> omega

/-- The four parts of a header. -/
theorem take_headerSize (long : headerSize ≤ bytes.length) :
    bytes.take headerSize = bytes.take Layout.timestampSize ++
      [severityByte bytes, bytes.getD Layout.componentAt 0] ++ lengthField bytes := by
  have severityInside : Layout.severityAt < bytes.length := Nat.lt_of_lt_of_le (by decide) long
  have componentInside : Layout.componentAt < bytes.length := Nat.lt_of_lt_of_le (by decide) long
  have pair : bytes.drop Layout.severityAt =
      severityByte bytes :: bytes.getD Layout.componentAt 0 :: bytes.drop Layout.lengthAt := by
    rw [severityByte, List.getD_eq_getElem _ _ severityInside,
      List.getD_eq_getElem _ _ componentInside, List.drop_eq_getElem_cons severityInside]
    exact congrArg _ (List.drop_eq_getElem_cons componentInside)
  have sizes : headerSize = Layout.timestampSize + (Layout.lengthSize + 2) := rfl
  rw [sizes, List.take_add, List.append_assoc]
  exact congrArg (_ ++ List.take _ ·) pair

theorem bigEndian_timestamp (long : headerSize ≤ bytes.length) :
    bigEndian Layout.timestampSize
        (UInt64.ofNat (ofBigEndian (bytes.take Layout.timestampSize))).toNat =
      bytes.take Layout.timestampSize := by
  have size : (bytes.take Layout.timestampSize).length = Layout.timestampSize := by
    rw [List.length_take]
    exact Nat.min_eq_left (Nat.le_trans (by decide) long)
  have spelled := bigEndian_ofBigEndian (bytes.take Layout.timestampSize)
  have small := ofBigEndian_lt (bytes.take Layout.timestampSize)
  rw [size] at spelled small
  have word : (UInt64.ofNat (ofBigEndian (bytes.take Layout.timestampSize))).toNat =
      ofBigEndian (bytes.take Layout.timestampSize) :=
    UInt64.toNat_ofNat'.trans (Nat.mod_eq_of_lt small)
  rw [word, spelled]

theorem bigEndian_length (long : headerSize ≤ bytes.length)
    (declared : declaredLength bytes = length) :
    bigEndian Layout.lengthSize length = lengthField bytes := by
  have spelled := bigEndian_ofBigEndian (lengthField bytes)
  have word : ofBigEndian (lengthField bytes) = length := by
    have small := lengthField_lt long
    rw [declaredLength, ← lengthField, signed32] at declared
    split at declared <;> omega
  rwa [length_lengthField long, word] at spelled

/-- **A header is determined by what it says.** -/
theorem take_eq_header (long : headerSize ≤ bytes.length)
    (rank : severity.rank = severityByte bytes) (declared : declaredLength bytes = length) :
    bytes.take headerSize = header (UInt64.ofNat (ofBigEndian (bytes.take Layout.timestampSize)))
      severity (bytes.getD Layout.componentAt 0) length := by
  rw [take_headerSize long, header, rank, bigEndian_timestamp long, bigEndian_length long declared]

theorem encode_recordOf (long : headerSize ≤ bytes.length)
    (rank : severity.rank = severityByte bytes)
    (declared : declaredLength bytes = (bytes.length - headerSize : Nat)) :
    (recordOf severity bytes).encode = bytes := by
  have length : (bytes.drop headerSize).length = bytes.length - headerSize := List.length_drop
  rw [Record.encode, recordOf, length, ← take_eq_header long rank declared, List.take_append_drop]

/-! What stands behind a header does not change what it says. -/

theorem declaredLength_append (tail : Bytes) (long : headerSize ≤ bytes.length) :
    declaredLength (bytes ++ tail) = declaredLength bytes := by
  have field : Layout.lengthAt + Layout.lengthSize ≤ bytes.length := long
  have inside : Layout.lengthSize ≤ (bytes.drop Layout.lengthAt).length := by
    rw [List.length_drop]
    omega
  rw [declaredLength, List.drop_append_of_le_length (Nat.le_of_add_right_le field),
    List.take_append_of_le_length inside, declaredLength]

theorem severityByte_append (tail : Bytes) (long : headerSize ≤ bytes.length) :
    severityByte (bytes ++ tail) = severityByte bytes := by
  rw [severityByte, List.getD_append _ _ _ _ (Nat.lt_of_lt_of_le (by decide) long), severityByte]

end Frame

/-! ### Storing -/

namespace Record

/-- As much of a message is stored as there is room for and as a header can state. -/
theorem length_encode_stored (r : Record) (capacity : Nat) :
    (r.cut (r.storedLength capacity)).encode.length = headerSize + r.storedLength capacity := by
  rw [length_encode, cut, List.length_take, storedLength]
  omega

/-- A record that is stored has its encoding at the front of the buffer, with the message cut to the
room there, and the buffer's old bytes behind it. -/
theorem store_eq (r : Record) {buffer : Bytes} (room : headerSize ≤ buffer.length) :
    r.store buffer = some (headerSize + r.storedLength buffer.length,
      (r.cut (r.storedLength buffer.length)).encode ++
        buffer.drop (headerSize + r.storedLength buffer.length)) := by
  have enough : ¬ buffer.length < headerSize := by omega
  simp only [store, if_neg enough, length_encode_stored, overlay, List.take_zero, List.nil_append,
    Nat.zero_add]

theorem store_of_length_eq {r : Record} (stated : r.message.length ≤ maxMessageLength)
    {buffer : Bytes} (size : buffer.length = r.encode.length) :
    r.store buffer = some (r.encode.length, r.encode) := by
  have length := r.length_encode
  have whole : r.storedLength buffer.length = r.message.length := by
    rw [storedLength, messageRoom]
    omega
  have kept : r.cut r.message.length = r := by rw [cut, List.take_length]
  rw [store_eq r (by omega), whole, kept, ← length, ← size, List.drop_length, List.append_nil]

/-- What a buffer holds after a record was stored in it, or could not be. -/
def afterStore (r : Record) (buffer : Bytes) : Bytes := (r.store buffer).elim buffer Prod.snd

/-- **Storing and decoding are inverse**, whatever the buffer held before: the record is found again
in the bytes written, and in the whole buffer with its old bytes behind them. -/
theorem decode_afterStore (r : Record) (buffer : Bytes) :
    if buffer.length < headerSize then r.store buffer = none ∧ r.afterStore buffer = buffer
    else
      let n := headerSize + min (min r.message.length (buffer.length - headerSize)) maxMessageLength
      let after := r.afterStore buffer
      let frame : Frame := ⟨{ r with message := r.message.take (n - headerSize) }, after.take n⟩
      r.store buffer = some (n, after) ∧ after.length = buffer.length ∧
        (∀ i, n ≤ i → after[i]? = buffer[i]?) ∧
        Frame.decode (after.take n) = .ok frame ∧ Frame.decode after = .ok frame := by
  split
  · next short =>
    have none := (r.store_eq_none_iff buffer).2 short
    exact ⟨none, by rw [afterStore, none]; rfl⟩
  · next enough =>
    obtain ⟨kept, def_⟩ : ∃ k, k = r.storedLength buffer.length := ⟨_, rfl⟩
    have size := r.length_encode_stored buffer.length
    have stored := r.store_eq (Nat.not_lt.1 enough)
    rw [← def_] at size stored
    have after : r.afterStore buffer =
        (r.cut kept).encode ++ buffer.drop (headerSize + kept) := by
      rw [afterStore, stored]
      rfl
    have front : (r.afterStore buffer).take (headerSize + kept) = (r.cut kept).encode := by
      rw [after, List.take_left' size]
    have stated : (r.cut kept).message.length ≤ maxMessageLength := by
      rw [cut, List.length_take, def_, storedLength]
      omega
    have count : headerSize + min (min r.message.length (buffer.length - headerSize))
        maxMessageLength = headerSize + kept := by rw [def_, storedLength, messageRoom]
    rw [← after] at stored
    simp only [count, Nat.add_sub_cancel_left, front]
    refine ⟨stored, (length_store stored).1, ?_, Frame.decode_encode stated, ?_⟩
    · intro i past
      rw [after, List.getElem?_append_right (by omega), size, List.getElem?_drop,
        Nat.add_sub_cancel' past]
    · rw [after]
      exact Frame.decode_encode_append stated _

/-- The bytes begin with the encoding of the record, whose length a header can state, and have a
tail behind it. -/
def Leads (r : Record) (tail bytes : Bytes) : Prop :=
  r.message.length ≤ maxMessageLength ∧ bytes = r.encode ++ tail

end Record

/-! ### Decoding -/

namespace Frame

variable {bytes : Bytes}

/-- The stated length is negative, or more than is there. -/
def IsUnfit (bytes : Bytes) : Prop :=
  (lengthWord bytes).toInt < 0 ∨ (bytes.length - headerSize : Nat) < (lengthWord bytes).toInt

/-- What is to become of bytes. -/
inductive Verdict (bytes : Bytes) : Except FrameError Frame → Prop
  | short : bytes.length < headerSize → Verdict bytes (.error (.truncated headerSize bytes.length))
  | unfit : headerSize ≤ bytes.length → IsUnfit bytes → Verdict bytes
    (.error (.lengthMismatch (lengthWord bytes).toInt (bytes.length - headerSize)))
  | unknown (byte : UInt8) : headerSize ≤ bytes.length → ¬ IsUnfit bytes →
    bytes[Layout.severityAt]? = some byte → (∀ s : Severity, s.rank ≠ byte) →
    Verdict bytes (.error (.unknownSeverity byte))
  | accepted (r : Record) (tail : Bytes) : r.Leads tail bytes → Verdict bytes (.ok ⟨r, r.encode⟩)

theorem decode_of_leads {r : Record} {tail : Bytes} (leads : r.Leads tail bytes) :
    decode bytes = .ok ⟨r, r.encode⟩ := by
  obtain ⟨stated, rfl⟩ := leads
  exact decode_encode_append stated tail

theorem decode_of_short (short : bytes.length < headerSize) :
    decode bytes = .error (.truncated headerSize bytes.length) := by
  simp only [decode, size, short, true_or, if_true, Nat.min_self]

theorem decode_of_unfit (long : headerSize ≤ bytes.length) (unfit : IsUnfit bytes) :
    decode bytes =
      .error (.lengthMismatch (lengthWord bytes).toInt (bytes.length - headerSize)) := by
  have enough : ¬ (bytes.length < headerSize ∨ bytes.length < headerSize) := by omega
  have fits : ¬ (0 ≤ (lengthWord bytes).toInt ∧
      (lengthWord bytes).toInt ≤ (bytes.length - headerSize : Nat)) := by
    rw [IsUnfit] at unfit
    omega
  simp only [decode, size, if_neg enough, declaredLength_eq_toInt long, if_neg fits]

theorem size_of_fit (long : headerSize ≤ bytes.length) (fit : ¬ IsUnfit bytes) :
    ∃ length : Nat, declaredLength bytes = length ∧ headerSize + length ≤ bytes.length ∧
      size bytes bytes.length = .ok (headerSize + length) := by
  rw [IsUnfit, not_or, ← declaredLength_eq_toInt long] at fit
  obtain ⟨positive, inside⟩ := fit
  refine ⟨(declaredLength bytes).toNat, by omega, by omega, ?_⟩
  exact size_eq_ok_iff.2 ⟨long, long, by omega, by omega, rfl⟩

theorem decode_of_unknown (long : headerSize ≤ bytes.length) (fit : ¬ IsUnfit bytes)
    (unknown : ∀ s : Severity, s.rank ≠ severityByte bytes) :
    decode bytes = .error (.unknownSeverity (severityByte bytes)) := by
  obtain ⟨length, -, -, sized⟩ := size_of_fit long fit
  simp only [decode, sized, Severity.ofRank?_eq_none_iff.2 unknown]

/-- **Bytes that are not refused begin with an encoding.** -/
theorem exists_leads (long : headerSize ≤ bytes.length) (fit : ¬ IsUnfit bytes)
    {severity : Severity} (rank : severity.rank = severityByte bytes) :
    ∃ r tail, Record.Leads r tail bytes := by
  obtain ⟨length, declared, inside, -⟩ := size_of_fit long fit
  obtain ⟨total, def_⟩ : ∃ n, n = headerSize + length := ⟨_, rfl⟩
  have full : (bytes.take total).length = total := by
    rw [List.length_take]
    omega
  have front : headerSize ≤ (bytes.take total).length := by omega
  have split : bytes.take total ++ bytes.drop total = bytes := List.take_append_drop total bytes
  rw [← split, severityByte_append _ front] at rank
  rw [← split, declaredLength_append _ front] at declared
  have encoding := encode_recordOf front rank (by omega)
  refine ⟨recordOf severity (bytes.take total), bytes.drop total, ?_, by rw [encoding, split]⟩
  have most := declaredLength_le front
  show ((bytes.take total).drop headerSize).length ≤ maxMessageLength
  rw [List.length_drop]
  omega

theorem severityByte_eq_iff (long : headerSize ≤ bytes.length) (byte : UInt8) :
    bytes[Layout.severityAt]? = some byte ↔ severityByte bytes = byte := by
  have inside : Layout.severityAt < bytes.length := Nat.lt_of_lt_of_le (by decide) long
  rw [List.getElem?_eq_getElem inside, Option.some_inj, severityByte,
    List.getD_eq_getElem _ _ inside]

/-- Some verdict is passed on all bytes, and it is the one that decoding comes to. -/
theorem verdict_decode (bytes : Bytes) : Verdict bytes (decode bytes) := by
  by_cases long : headerSize ≤ bytes.length
  · by_cases unfit : IsUnfit bytes
    · rw [decode_of_unfit long unfit]
      exact .unfit long unfit
    · by_cases unknown : ∀ s : Severity, s.rank ≠ severityByte bytes
      · rw [decode_of_unknown long unfit unknown]
        exact .unknown _ long unfit ((severityByte_eq_iff long _).2 rfl) unknown
      · obtain ⟨severity, rank⟩ := not_forall.1 unknown
        obtain ⟨r, tail, leads⟩ := exists_leads long unfit (not_not.1 rank)
        rw [decode_of_leads leads]
        exact .accepted r tail leads
  · have short : bytes.length < headerSize := Nat.not_le.1 long
    rw [decode_of_short short]
    exact .short short

theorem decode_eq_iff {outcome : Except FrameError Frame} :
    decode bytes = outcome ↔ Verdict bytes outcome := by
  constructor
  · rintro rfl
    exact verdict_decode bytes
  · intro verdict
    cases verdict with
    | short short => exact decode_of_short short
    | unfit long unfit => exact decode_of_unfit long unfit
    | unknown byte long fit at_ unknown =>
      cases (severityByte_eq_iff long byte).1 at_
      exact decode_of_unknown long fit unknown
    | accepted r tail leads => exact decode_of_leads leads

/-- **The law of decoding.** -/
structure Judged (bytes : Bytes) : Prop where
  verdict : ∀ outcome, decode bytes = outcome ↔ Verdict bytes outcome
  /-- Accepted bytes begin with the encoding of one record, and have one tail behind it. -/
  unique : ∀ r r' tail tail', Record.Leads r tail bytes → Record.Leads r' tail' bytes →
    r = r' ∧ tail = tail'
  /-- To store the record again gives the same bytes. -/
  restores : ∀ f buffer, decode bytes = .ok f → buffer.length = f.bytes.length →
    f.record.store buffer = some (f.bytes.length, f.bytes)

/-- **Decoding accepts exactly the encodings**, gives the record back that was encoded, and says of
everything else what is wrong with it. -/
theorem decode_judges (bytes : Bytes) : Judged bytes where
  verdict _ := decode_eq_iff
  unique := by
    intro r r' tail tail' leads leads'
    have same := Except.ok.inj ((decode_of_leads leads).symm.trans (decode_of_leads leads'))
    cases congrArg Frame.record same
    exact ⟨rfl, List.append_cancel_left (leads.2.symm.trans leads'.2)⟩
  restores := by
    intro f buffer decoded size
    cases decode_eq_iff.1 decoded with
    | accepted r tail leads => exact Record.store_of_length_eq leads.1 size

/-- Bytes that could be refused both for their length and for their severity are refused for their
length. -/
example : decode (List.replicate 10 0 ++ [0x80, 0, 0, 0]) =
    .error (.lengthMismatch (-0x80000000) 0) := by cbv

end Frame

end LogRelay
