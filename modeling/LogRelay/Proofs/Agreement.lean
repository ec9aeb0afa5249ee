/-
# The same bytes in a stream and in a slot

The reader of a stream checks the stated length itself and decodes a piece that it has cut out; the
reader of a slot decodes all that is there. Of the same bytes they say the same, but for one thing.
A length that is more than what is there is a mismatch in a slot, which ends there for good. In a
stream it is a frame whose rest is missing, so the stream says how much the frame would need; of a
negative length it says what the slot says.

That is one equation (`front_eq_mapError`), and what the two agree on is read off it. It speaks of
bytes; a reader stands somewhere in its data, and `IsOver` says that what is in front of it are the
data behind its position.

Key definitions: `FrameError.inStream`, `FrameStream.IsOver`, `FrameStream.AgreesWith`.
Key theorems: `FrameStream.front_eq_mapError`, `FrameStream.IsOver.next`,
`FrameStream.agreesWith_next`.
-/
import LogRelay.Proofs.Layers
import LogRelay.Proofs.Sifting

namespace LogRelay

/-- What a stream with `length` bytes left says where a slot of them says `e`. -/
def FrameError.inStream (length : Nat) : FrameError → FrameError
  | lengthMismatch declared available =>
    if declared < 0 then lengthMismatch declared available
    else truncated (headerSize + declared.toNat) length
  | e => e

namespace FrameError

variable {length : Nat} {e : FrameError}

theorem inStream_eq_unknownSeverity_iff {byte : UInt8} :
    e.inStream length = .unknownSeverity byte ↔ e = .unknownSeverity byte := by
  cases e with
  | truncated needed available => exact Iff.rfl
  | unknownSeverity other => exact Iff.rfl
  | lengthMismatch declared available =>
    rw [inStream]
    split <;> exact iff_of_false (by rintro ⟨⟩) (by rintro ⟨⟩)

theorem inStream_eq_lengthMismatch_iff {declared : Int} {available : Nat} :
    e.inStream length = .lengthMismatch declared available ↔
      e = .lengthMismatch declared available ∧ declared < 0 := by
  cases e with
  | truncated needed available => exact iff_of_false (by rintro ⟨⟩) (by rintro ⟨⟨⟩, -⟩)
  | unknownSeverity other => exact iff_of_false (by rintro ⟨⟩) (by rintro ⟨⟨⟩, -⟩)
  | lengthMismatch declared' available' =>
    rw [inStream]
    split
    · next negative => exact ⟨fun same => ⟨same, by cases same; exact negative⟩, And.left⟩
    · next positive =>
      refine iff_of_false (by rintro ⟨⟩) ?_
      rintro ⟨⟨⟩, negative⟩
      exact positive negative

theorem inStream_eq_truncated_iff {needed available : Nat} :
    e.inStream length = .truncated needed available ↔ e = .truncated needed available ∨
      ∃ (declared : Int) (there : Nat), e = .lengthMismatch declared there ∧ 0 ≤ declared ∧
        needed = headerSize + declared.toNat ∧ available = length := by
  cases e with
  | truncated needed' available' => simp [inStream]
  | unknownSeverity other => simp [inStream]
  | lengthMismatch declared there =>
    rw [inStream]
    split
    · next negative =>
      refine iff_of_false (by rintro ⟨⟩) ?_
      rintro (⟨⟨⟩⟩ | ⟨_, _, ⟨⟩, positive, -⟩)
      exact Int.not_lt.2 positive negative
    · next positive =>
      constructor
      · rintro ⟨⟩
        exact .inr ⟨declared, there, rfl, Int.not_lt.1 positive, rfl, rfl⟩
      · rintro (⟨⟨⟩⟩ | ⟨_, _, ⟨⟩, -, rfl, rfl⟩)
        rfl

end FrameError

namespace FrameStream

/-! ### One frame -/

variable {rest : Bytes}

theorem front_of_short (short : rest.length < headerSize) :
    front rest = .error (.truncated headerSize rest.length) := by
  simp only [front, if_pos short]

/-- A length that does not fit is negative, or it says how much is missing. -/
theorem front_of_unfit (long : headerSize ≤ rest.length) (unfit : Frame.IsUnfit rest) :
    front rest = .error (FrameError.inStream rest.length
      (.lengthMismatch (Frame.lengthWord rest).toInt (rest.length - headerSize))) := by
  have enough : ¬ rest.length < headerSize := Nat.not_lt.2 long
  simp only [front, if_neg enough, Frame.declaredLength_eq_toInt long, FrameError.inStream]
  by_cases negative : (Frame.lengthWord rest).toInt < 0
  · rw [if_pos negative, if_pos negative]
  · have missing : rest.length < headerSize + (Frame.lengthWord rest).toInt.toNat := by
      rcases unfit with below | above
      · exact absurd below negative
      · omega
    rw [if_neg negative, if_neg negative, if_pos missing]

theorem front_of_fit (long : headerSize ≤ rest.length) (fit : ¬ Frame.IsUnfit rest) :
    front rest = Frame.decode rest := by
  obtain ⟨length, declared, inside, sized⟩ := Frame.size_of_fit long fit
  have enough : ¬ rest.length < headerSize := Nat.not_lt.2 long
  have positive : ¬ (length : Int) < 0 := by omega
  have whole : ¬ rest.length < headerSize + length := Nat.not_lt.2 inside
  simp only [front, if_neg enough, declared, if_neg positive, Int.toNat_natCast, if_neg whole,
    Frame.decode_take_of_size sized]

/-- **A stream says of its front what decoding all of it says**, in the words of a stream. -/
theorem front_eq_mapError (rest : Bytes) :
    front rest = (Frame.decode rest).mapError (FrameError.inStream rest.length) := by
  by_cases long : headerSize ≤ rest.length
  · by_cases unfit : Frame.IsUnfit rest
    · rw [front_of_unfit long unfit, Frame.decode_of_unfit long unfit]
      rfl
    · obtain ⟨length, -, -, sized⟩ := Frame.size_of_fit long unfit
      rw [front_of_fit long unfit]
      -- what is not refused for its length is accepted or refused for its severity
      rcases Frame.decode_of_size_ok sized with ⟨f, decoded⟩ | ⟨byte, decoded⟩
      · rw [decoded]
        rfl
      · rw [decoded]
        rfl
  · have short : rest.length < headerSize := Nat.lt_of_not_le long
    rw [front_of_short short, Frame.decode_of_short short]
    rfl

/-- A mismatch that is found in a slot states a length that does not fit behind the header. -/
theorem unfit_of_decode {declared : Int} {available : Nat}
    (refused : Frame.decode rest = .error (.lengthMismatch declared available)) :
    available = rest.length - headerSize ∧ (declared < 0 ∨ available < declared) := by
  cases Frame.decode_eq_iff.1 refused with
  | unfit long unfit => exact ⟨rfl, unfit⟩

theorem front_eq_ok_iff_decode {f : Frame} : front rest = .ok f ↔ Frame.decode rest = .ok f := by
  rw [front_eq_mapError]
  cases Frame.decode rest with
  | ok g => exact Iff.rfl
  | error e => exact iff_of_false (by rintro ⟨⟩) (by rintro ⟨⟩)

theorem front_eq_error_iff {e : FrameError} : front rest = .error e ↔
    ∃ found, Frame.decode rest = .error found ∧ found.inStream rest.length = e := by
  rw [front_eq_mapError]
  cases Frame.decode rest with
  | ok f => exact iff_of_false (by rintro ⟨⟩) (by rintro ⟨_, ⟨⟩, -⟩)
  | error found => simp [Except.mapError]

/-! ### Where a reader stands -/

/-- The stream is a reader of `data`: in front of it are the data behind its position. -/
structure IsOver (data : Bytes) (s : FrameStream) : Prop where
  position_le : s.position ≤ data.length
  rest_eq : s.rest = data.drop s.position

variable {data : Bytes} {s : FrameStream}

theorem isOver_ofBytes (data : Bytes) : (ofBytes data).IsOver data := ⟨Nat.zero_le _, rfl⟩

theorem IsOver.next (stands : s.IsOver data) : s.next.2.IsOver data := by
  rcases s.next_cases with ⟨nothing, -⟩ | ⟨-, e, -, read⟩ | ⟨-, f, found, read⟩
  · rw [nothing]
    exact stands
  · rw [read]
    exact ⟨stands.position_le, stands.rest_eq⟩
  · have inside := (length_of_front found).2
    have left := stands.position_le
    rw [stands.rest_eq, List.length_drop] at inside
    rw [read]
    refine ⟨by dsimp only; omega, ?_⟩
    dsimp only
    rw [stands.rest_eq, List.drop_drop]

theorem IsOver.next_eq (stands : s.IsOver data) (fresh : s.failed = false)
    (more : s.position < data.length) : s.next.1 = some (front (data.drop s.position)) := by
  have some : s.rest ≠ [] := by
    rw [stands.rest_eq, Ne, List.drop_eq_nil_iff]
    exact Nat.not_le.2 more
  have ready : ¬ (s.failed = true ∨ s.rest = []) := by
    rw [fresh]
    exact fun stopped => stopped.elim Bool.false_ne_true some
  rw [← stands.rest_eq, FrameStream.next, if_neg ready]
  cases front s.rest with
  | error e => rfl
  | ok f => rfl

/-! ### Both readers -/

/-- What the reading `item` of a stream has to do with decoding all of `rest`, which is left. -/
structure AgreesWith (rest : Bytes) (item : Option (Except FrameError Frame)) : Prop where
  ok_iff : ∀ f, item = some (.ok f) ↔ Frame.decode rest = .ok f
  /-- A frame is a first part of what is left, and is read whatever stands behind it. -/
  ok_append : ∀ f, item = some (.ok f) → f.bytes <+: rest ∧ ∀ tail position,
    (next ⟨f.bytes ++ tail, position, false⟩).1 = item ∧
      Frame.decode (f.bytes ++ tail) = .ok f
  unknown_iff : ∀ byte, item = some (.error (.unknownSeverity byte)) ↔
    Frame.decode rest = .error (.unknownSeverity byte)
  short_iff : item = some (.error (.truncated headerSize rest.length)) ↔
    Frame.decode rest = .error (.truncated headerSize rest.length)
  /-- A negative length is a mismatch to both. -/
  negative : ∀ declared, declared < 0 →
    Frame.decode rest = .error (.lengthMismatch declared (rest.length - headerSize)) →
      item = some (.error (.lengthMismatch declared (rest.length - headerSize)))
  /-- A length that is too great is a frame whose rest is missing. -/
  missing : ∀ declared, 0 ≤ declared →
    Frame.decode rest = .error (.lengthMismatch declared (rest.length - headerSize)) →
      item = some (.error (.truncated (headerSize + declared.toNat) rest.length))
  /-- No other mismatch is found in a stream. -/
  negative_of_mismatch : ∀ declared available,
    item = some (.error (.lengthMismatch declared available)) → declared < 0
  /-- That is all a stream may say. -/
  item_eq : item = some ((Frame.decode rest).mapError (FrameError.inStream rest.length))

theorem agreesWith_front (rest : Bytes) : AgreesWith rest (some (front rest)) where
  ok_iff f := by rw [Option.some_inj, front_eq_ok_iff_decode]
  ok_append := by
    intro f read
    obtain ⟨whole, tail, stated, rfl⟩ := front_eq_ok_iff.1 (Option.some_inj.1 read)
    have frame : f = ⟨f.record, f.record.encode⟩ := congrArg (Frame.mk f.record) whole
    rw [whole, read]
    refine ⟨List.prefix_append _ _, fun tail' position => ?_⟩
    rw [next_encode_append stated, Frame.decode_encode_append stated, ← frame]
    exact ⟨rfl, rfl⟩
  unknown_iff byte := by
    simp only [Option.some_inj, front_eq_error_iff, FrameError.inStream_eq_unknownSeverity_iff,
      exists_eq_right]
  short_iff := by
    rw [Option.some_inj, front_eq_error_iff]
    constructor
    · rintro ⟨found, refused, same⟩
      rcases FrameError.inStream_eq_truncated_iff.1 same with
        short | ⟨declared, there, rfl, positive, header, -⟩
      · rw [refused, short]
      · -- nothing but a header is always there, once there is a header
        obtain ⟨-, unfit⟩ := unfit_of_decode refused
        omega
    · intro refused
      exact ⟨_, refused, rfl⟩
  negative declared negative refused := by
    rw [front_eq_mapError, refused, Except.mapError, FrameError.inStream, if_pos negative]
  missing declared positive refused := by
    rw [front_eq_mapError, refused, Except.mapError, FrameError.inStream,
      if_neg (Int.not_lt.2 positive)]
  negative_of_mismatch := by
    intro declared available read
    obtain ⟨found, -, same⟩ := front_eq_error_iff.1 (Option.some_inj.1 read)
    exact (FrameError.inStream_eq_lengthMismatch_iff.1 same).2
  item_eq := by rw [front_eq_mapError]

/-- **A stream and a slot say the same of every frame**, wherever in its data the reader stands, as
long as it has not failed and something is left. A reading leaves it in its data. -/
theorem agreesWith_next (data : Bytes) (s : FrameStream) (stands : s.IsOver data)
    (fresh : s.failed = false) (more : s.position < data.length) :
    AgreesWith (data.drop s.position) s.next.1 ∧ s.next.2.IsOver data := by
  refine ⟨?_, stands.next⟩
  rw [stands.next_eq fresh more]
  exact agreesWith_front _

/-- Behind one record, which has been read, stands a header that states five bytes of message, of
which two are there. -/
theorem agreesWith_next_missing :
    let data := (Record.mk 7 .info 3 [104, 105]).encode ++ header 8 .warn 3 5 ++ [98, 121]
    let s : FrameStream := (ofBytes data).next.2
    s.IsOver data ∧ s.failed = false ∧ s.position < data.length ∧
      (AgreesWith (data.drop s.position) s.next.1 ∧ s.next.2.IsOver data) ∧
      Frame.decode (data.drop s.position) = .error (.lengthMismatch 5 2) ∧
      s.next.1 = some (.error (.truncated 19 16)) := by
  intro data s
  have stands : s.IsOver data := (isOver_ofBytes data).next
  have agrees := agreesWith_next data s stands rfl (by decide)
  have refused : Frame.decode (data.drop s.position) = .error (.lengthMismatch 5 2) := by decide
  have left : (data.drop s.position).length = 16 := by decide
  have missing := agrees.1.missing 5 (by decide)
  rw [left] at missing
  exact ⟨stands, rfl, by decide, agrees, refused, missing refused⟩

end FrameStream

end LogRelay
