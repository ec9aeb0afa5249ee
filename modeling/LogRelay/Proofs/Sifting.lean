/-
# Reading bytes that nobody vouches for

A stream may be read over any bytes at all. However often it is read, what lies behind its position
is the encodings of the records that were read, one after the other, and what lies before it is
untouched. A reading that is refused is the last, and leaves the position in front of what was
refused. So after one reading more than there is room for headers nothing is left to come, and no
reading is refused exactly if the bytes are encodings back to back, which are then what is read.

One fact about the front of a stream carries this: a frame is read there exactly if an encoding
stands there (`front_eq_ok_iff`). `Reached` is what one reading hands to the next.

Key definitions: `Frame.IsEncoding`, `FrameStream.reads`, `FrameStream.Reached`,
`FrameStream.Sifted`, `FrameStream.SiftLaw`.
Key theorems: `FrameStream.front_eq_ok_iff`, `FrameStream.Reached.next`, `FrameStream.reads_sift`.
-/
import LogRelay.Proofs.Grammar
import LogRelay.Proofs.Stream
import Mathlib.Data.List.Basic

namespace LogRelay

/-! ### Frames -/

namespace Frame

/-- The bytes of the frame are the encoding of its record, whose length a header can state. -/
structure IsEncoding (f : Frame) : Prop where
  stated : f.record.message.length ≤ maxMessageLength
  bytes_eq : f.bytes = f.record.encode

theorem IsEncoding.headerSize_le {f : Frame} (h : f.IsEncoding) : headerSize ≤ f.bytes.length := by
  rw [h.bytes_eq, Record.length_encode]
  exact Nat.le_add_right _ _

theorem IsEncoding.store {f : Frame} (h : f.IsEncoding) {buffer : Bytes}
    (size : buffer.length = f.bytes.length) :
    f.record.store buffer = some (f.bytes.length, f.bytes) := by
  rw [h.bytes_eq] at size ⊢
  exact Record.store_of_length_eq h.stated size

theorem flatMap_bytes {fs : List Frame} (h : ∀ f ∈ fs, f.IsEncoding) :
    fs.flatMap Frame.bytes = fs.flatMap fun f => f.record.encode :=
  List.flatMap_congr fun f member => (h f member).bytes_eq

theorem length_mul_headerSize_le : ∀ {fs : List Frame}, (∀ f ∈ fs, f.IsEncoding) →
    fs.length * headerSize ≤ (fs.flatMap Frame.bytes).length
  | [], _ => Nat.zero_le _
  | f :: fs, h => by
    have first := (h f List.mem_cons_self).headerSize_le
    have rest := length_mul_headerSize_le fun g member => h g (List.mem_cons_of_mem f member)
    rw [List.length_cons, Nat.succ_mul, List.flatMap_cons, List.length_append]
    omega

theorem isEncoding_of_decode {bytes : Bytes} {f : Frame} (decoded : decode bytes = .ok f) :
    f.IsEncoding := by
  cases decode_eq_iff.1 decoded with
  | accepted r tail leads => exact ⟨leads.1, rfl⟩

end Frame

namespace FrameStream

/-! ### One reading -/

/-- **A frame is read exactly where an encoding stands**, whatever stands behind it. -/
theorem front_eq_ok_iff {rest : Bytes} {f : Frame} :
    front rest = .ok f ↔ f.bytes = f.record.encode ∧ ∃ tail, f.record.Leads tail rest := by
  constructor
  · intro found
    simp only [front] at found
    split at found
    · cases found
    · split at found
      · cases found
      · split at found
        · cases found
        · -- the piece that is decoded is the front of what it was cut from
          cases Frame.decode_eq_iff.1 found with
          | accepted r tail leads =>
            refine ⟨rfl, tail ++ rest.drop (headerSize + (Frame.declaredLength rest).toNat),
              leads.1, ?_⟩
            rw [← List.append_assoc, ← leads.2, List.take_append_drop]
  · rintro ⟨whole, tail, stated, rfl⟩
    rw [front_encode_append stated, ← whole]

/-- A reading gives nothing, or refuses what is in front, or takes a frame from there. -/
theorem next_cases (s : FrameStream) :
    s.next = (none, s) ∧ (s.failed = true ∨ s.rest = []) ∨
      (s.failed = false ∧ ∃ e, front s.rest = .error e ∧
        s.next = (some (.error e), { s with failed := true })) ∨
      (s.failed = false ∧ ∃ f, front s.rest = .ok f ∧
        s.next = (some (.ok f), { s with
          rest := s.rest.drop f.bytes.length, position := s.position + f.bytes.length })) := by
  by_cases stopped : s.failed = true ∨ s.rest = []
  · exact .inl ⟨by rw [next, if_pos stopped], stopped⟩
  · have fresh : s.failed = false := Bool.eq_false_iff.2 fun failed => stopped (.inl failed)
    right
    cases found : front s.rest with
    | error e =>
      refine .inl ⟨fresh, e, rfl, ?_⟩
      rw [next, if_neg stopped, found]
    | ok f =>
      refine .inr ⟨fresh, f, rfl, ?_⟩
      rw [next, if_neg stopped, found]

/-! ### Many readings -/

/-- What `count` readings give, and the stream after them. A reading that gives nothing leaves no
item. -/
def reads (s : FrameStream) : Nat → List (Except FrameError Frame) × FrameStream
  | 0 => ([], s)
  | count + 1 =>
    let (items, s) := s.reads count
    let (item, s) := s.next
    (items ++ item.toList, s)

theorem reads_succ {s t : FrameStream} {count : Nat} {item : Option (Except FrameError Frame)}
    (h : (s.reads count).2.next = (item, t)) :
    s.reads (count + 1) = ((s.reads count).1 ++ item.toList, t) := by
  simp only [reads, h]

theorem readAll_eq_append (s : FrameStream) : ∀ count : Nat,
    s.readAll = ((s.reads count).1 ++ (s.reads count).2.readAll.1, (s.reads count).2.readAll.2)
  | 0 => rfl
  | count + 1 => by
    have before := readAll_eq_append s count
    cases read : (s.reads count).2.next with
    | mk item t =>
      rw [before, reads_succ read]
      cases item with
      | none => rw [eq_of_next_none read, Option.toList_none, List.append_nil]
      | some item =>
        rw [readAll_of_next read, Option.toList_some, List.append_assoc, List.singleton_append]

theorem readAll_of_next_none {s : FrameStream} (h : s.next = (none, s)) : s.readAll = ([], s) := by
  rw [readAll]
  split
  · next nothing => rw [(Prod.mk.inj (h.symm.trans nothing)).2]
  · next found => cases h.symm.trans found

/-- Where `count` readings of the bytes `data` have come to: the frames `frames` were read, and what
stands behind them was refused for `fault`, if it was. -/
structure Reached (data : Bytes) (count : Nat) (frames : List Frame) (fault : Option FrameError)
    (s : FrameStream) : Prop where
  data_eq : frames.flatMap Frame.bytes ++ s.rest = data
  position_eq : s.position = (frames.flatMap Frame.bytes).length
  encodings : ∀ f ∈ frames, f.IsEncoding
  refused : ∀ e, fault = some e → front s.rest = .error e
  failed_eq : s.failed = fault.isSome
  /-- A reading that was refused gave no frame. -/
  length_le : frames.length + fault.toList.length ≤ count
  /-- A reading that gave no frame was the end. -/
  ended : frames.length < count → s.next = (none, s)

theorem reached_ofBytes (data : Bytes) : Reached data 0 [] none (ofBytes data) where
  data_eq := rfl
  position_eq := rfl
  encodings _ member := absurd member List.not_mem_nil
  refused _ none := absurd none (Option.some_ne_none _).symm
  failed_eq := rfl
  length_le := Nat.le_refl 0
  ended lt := absurd lt (Nat.lt_irrefl 0)

section

variable {data : Bytes} {count : Nat} {frames : List Frame} {fault : Option FrameError}
  {s : FrameStream}

theorem Reached.length_eq (h : Reached data count frames fault s)
    {t : FrameStream} {item : Except FrameError Frame} (more : s.next = (some item, t)) :
    frames.length = count ∧ fault = none := by
  have all : ¬ frames.length < count := fun lt => by
    cases more.symm.trans (h.ended lt)
  have length := h.length_le
  have few : fault.toList.length = 0 := by omega
  exact ⟨by omega, Option.toList_eq_nil_iff.1 (List.length_eq_zero_iff.1 few)⟩

theorem Reached.refuse (h : Reached data count frames none s) {e : FrameError}
    (length : frames.length = count) (refused : front s.rest = .error e) :
    Reached data (count + 1) frames (some e) { s with failed := true } where
  data_eq := h.data_eq
  position_eq := h.position_eq
  encodings := h.encodings
  refused e' same := Option.some.inj same ▸ refused
  failed_eq := rfl
  length_le := by
    rw [length]
    exact Nat.le_refl _
  ended _ := next_of_failed rfl

/-- A frame that is read is an encoding that stood behind those read before. -/
theorem Reached.accept (h : Reached data count frames none s) {f : Frame}
    (length : frames.length = count) (found : front s.rest = .ok f) :
    Reached data (count + 1) (frames ++ [f]) none { s with
      rest := s.rest.drop f.bytes.length, position := s.position + f.bytes.length } := by
  obtain ⟨whole, tail, stated, rest⟩ := front_eq_ok_iff.1 found
  have behind : (frames ++ [f]).flatMap Frame.bytes = frames.flatMap Frame.bytes ++ f.bytes := by
    rw [List.flatMap_append, List.flatMap_singleton]
  have left : f.bytes ++ s.rest.drop f.bytes.length = s.rest := by
    rw [rest, ← whole, List.drop_left]
  have longer : (frames ++ [f]).length = count + 1 := by
    rw [List.length_append, List.length_singleton, length]
  refine ⟨?_, ?_, ?_, ?_, h.failed_eq, Nat.le_of_eq longer, ?_⟩
  · rw [behind, List.append_assoc, left, h.data_eq]
  · rw [behind, List.length_append, ← h.position_eq]
  · intro g member
    rcases List.mem_append.1 member with old | new
    · exact h.encodings g old
    · rw [List.mem_singleton.1 new]
      exact ⟨stated, whole⟩
  · rintro e ⟨⟩
  · intro lt
    exact absurd lt (by omega)

theorem Reached.next (h : Reached data count frames fault s) :
    ∃ frames' fault', Reached data (count + 1) frames' fault' s.next.2 ∧
      (frames'.map Except.ok ++ fault'.toList.map Except.error : List (Except FrameError Frame)) =
        frames.map .ok ++ fault.toList.map .error ++ s.next.1.toList := by
  rcases s.next_cases with ⟨nothing, -⟩ | ⟨-, e, refused, read⟩ | ⟨-, f, found, read⟩
  · rw [nothing]
    refine ⟨frames, fault, ?_, (List.append_nil _).symm⟩
    exact { h with length_le := Nat.le_succ_of_le h.length_le, ended := fun _ => nothing }
  · obtain ⟨length, rfl⟩ := h.length_eq read
    rw [read]
    refine ⟨frames, some e, h.refuse length refused, ?_⟩
    simp only [Option.toList_none, Option.toList_some, List.map_nil, List.append_nil,
      List.map_cons]
  · obtain ⟨length, rfl⟩ := h.length_eq read
    rw [read]
    refine ⟨frames ++ [f], none, h.accept length found, ?_⟩
    simp only [List.map_append, Option.toList_none, Option.toList_some, List.map_nil,
      List.append_nil, List.map_cons]

theorem exists_reached (data : Bytes) : ∀ count : Nat, ∃ frames fault,
    Reached data count frames fault ((ofBytes data).reads count).2 ∧
      ((ofBytes data).reads count).1 = frames.map .ok ++ fault.toList.map .error
  | 0 => ⟨[], none, reached_ofBytes data, rfl⟩
  | count + 1 => by
    obtain ⟨frames, fault, reached, items⟩ := exists_reached data count
    obtain ⟨frames', fault', reached', items'⟩ := reached.next
    rw [← items] at items'
    exact ⟨frames', fault', reached', items'.symm⟩

theorem Reached.length_frames_le (h : Reached data count frames fault s) :
    frames.length ≤ data.length / headerSize := by
  have room := Frame.length_mul_headerSize_le h.encodings
  rw [Nat.le_div_iff_mul_le (by decide), ← h.data_eq, List.length_append]
  omega

/-- One reading more than there is room for headers is the end. -/
theorem Reached.next_of_lt (h : Reached data count frames fault s)
    (lt : data.length / headerSize < count) : s.next = (none, s) :=
  h.ended (Nat.lt_of_le_of_lt h.length_frames_le lt)

theorem Reached.take_position (h : Reached data count frames fault s) :
    data.take s.position = frames.flatMap Frame.bytes := by
  rw [← h.data_eq, h.position_eq, List.take_left]

theorem Reached.drop_position (h : Reached data count frames fault s) :
    s.rest = data.drop s.position := by
  rw [← h.data_eq, h.position_eq, List.drop_left]

/-- Where nothing was refused and nothing is left, the bytes are the encodings that were read. -/
theorem Reached.data_eq_encodings (h : Reached data count frames none s)
    (ended : s.next = (none, s)) : data = (frames.map Frame.record).flatMap Record.encode := by
  have fresh : s.failed = false := h.failed_eq
  have empty : s.rest = [] := by
    rcases s.next_cases with ⟨-, failed | empty⟩ | ⟨-, e, -, read⟩ | ⟨-, f, -, read⟩
    · rw [fresh] at failed
      cases failed
    · exact empty
    · cases ended.symm.trans read
    · cases ended.symm.trans read
  rw [← h.data_eq, empty, List.append_nil, Frame.flatMap_bytes h.encodings, List.flatMap_map]

end

/-- Encodings back to back are read one by one. -/
theorem reads_encodings {rs : List Record} (stated : ∀ r ∈ rs, r.message.length ≤ maxMessageLength) :
    ∀ count : Nat, (ofBytes (rs.flatMap Record.encode)).reads count =
      ((rs.take count).map fun r => .ok ⟨r, r.encode⟩,
        ⟨(rs.drop count).flatMap Record.encode, boundary rs count, false⟩)
  | 0 => rfl
  | count + 1 => by
    have before := reads_encodings stated count
    have all : rs.take (count + 1) = rs.take count ++ rs[count]?.toList := List.take_add_one
    cases at_ : rs[count]? with
    | none =>
      have past : rs.length ≤ count := List.getElem?_eq_none_iff.1 at_
      have nothing : rs.drop count = [] := List.drop_eq_nil_of_le past
      have still : rs.drop (count + 1) = [] := List.drop_eq_nil_of_le (Nat.le_succ_of_le past)
      have read : ((ofBytes (rs.flatMap Record.encode)).reads count).2.next =
          (none, ⟨[], boundary rs count, false⟩) := by
        rw [before, nothing]
        rfl
      rw [reads_succ read, before, all, at_, still, boundary, boundary, all, at_]
      simp only [Option.toList_none, List.append_nil, List.flatMap_nil]
    | some r =>
      obtain ⟨inside, here⟩ := List.getElem?_eq_some_iff.1 at_
      have front : rs.drop count = r :: rs.drop (count + 1) := by
        rw [List.drop_eq_getElem_cons inside, here]
      have member : r ∈ rs := here ▸ List.getElem_mem inside
      have read : ((ofBytes (rs.flatMap Record.encode)).reads count).2.next =
          (some (.ok ⟨r, r.encode⟩), ⟨(rs.drop (count + 1)).flatMap Record.encode,
            boundary rs count + r.encode.length, false⟩) := by
        rw [before, front, List.flatMap_cons, next_encode_append (stated r member)]
      rw [reads_succ read, before, all, at_, boundary, boundary, all, at_]
      simp only [Option.toList_some, List.map_append, List.map_cons, List.map_nil,
        List.flatMap_append, List.flatMap_singleton, List.length_append]

/-- **What `count` readings of any bytes come to.** -/
structure Sifted (data : Bytes) (count : Nat) (frames : List Frame) (fault : Option FrameError)
    (items : List (Except FrameError Frame)) (s : FrameStream) : Prop where
  /-- An error is the last item. -/
  items_eq : items = frames.map .ok ++ fault.toList.map .error
  position_le : s.position ≤ data.length
  rest_eq : s.rest = data.drop s.position
  take_eq_bytes : data.take s.position = frames.flatMap Frame.bytes
  take_eq_encode : data.take s.position = frames.flatMap fun f => f.record.encode
  /-- Storing a record that was read gives the bytes that it was read from. -/
  restores : ∀ f ∈ frames, ∀ buffer : Bytes, buffer.length = f.bytes.length →
    f.record.store buffer = some (f.bytes.length, f.bytes)
  length_le : frames.length ≤ data.length / headerSize
  /-- What was refused stands at the position, and nothing is read after it. -/
  refused : ∀ e, fault = some e → front (data.drop s.position) = .error e ∧ s.next = (none, s)
  /-- One reading more than there is room for headers finds nothing. -/
  ended : data.length / headerSize < count →
    s.next = (none, s) ∧ (ofBytes data).readAll = (items, s)

/-- **The law of reading bytes that nobody vouches for.** -/
structure SiftLaw (data : Bytes) : Prop where
  sifted : ∀ count, ∃ frames fault, Sifted data count frames fault
    ((ofBytes data).reads count).1 ((ofBytes data).reads count).2
  /-- Nothing is refused exactly if the bytes are encodings back to back. -/
  accepted_iff : (∀ count e, Except.error e ∉ ((ofBytes data).reads count).1) ↔
    ∃ rs : List Record, (∀ r ∈ rs, r.message.length ≤ maxMessageLength) ∧
      data = rs.flatMap Record.encode
  /-- These encodings are then what is read. -/
  exact : ∀ rs : List Record, (∀ r ∈ rs, r.message.length ≤ maxMessageLength) →
    data = rs.flatMap Record.encode → ∀ count,
      ((ofBytes data).reads count).1 = (rs.take count).map fun r => .ok ⟨r, r.encode⟩

theorem Reached.sifted {data : Bytes} {count : Nat} {frames : List Frame}
    {fault : Option FrameError} {items : List (Except FrameError Frame)} {s : FrameStream}
    (h : Reached data count frames fault s) (items_eq : items = frames.map .ok ++
      fault.toList.map .error) (reads : (ofBytes data).reads count = (items, s)) :
    Sifted data count frames fault items s where
  items_eq := items_eq
  position_le := by
    rw [h.position_eq, ← h.data_eq, List.length_append]
    exact Nat.le_add_right _ _
  rest_eq := h.drop_position
  take_eq_bytes := h.take_position
  take_eq_encode := h.take_position.trans (Frame.flatMap_bytes h.encodings)
  restores f member buffer size := (h.encodings f member).store size
  length_le := h.length_frames_le
  refused e same := by
    rw [← h.drop_position]
    exact ⟨h.refused e same, next_of_failed (by rw [h.failed_eq, same]; rfl)⟩
  ended lt := by
    have ended := h.next_of_lt lt
    refine ⟨ended, ?_⟩
    rw [readAll_eq_append _ count, reads]
    simp only [readAll_of_next_none ended, List.append_nil]

/-- **Reading any bytes gives the encodings at their front**, refuses the first thing that is none,
and comes to an end. -/
theorem reads_sift (data : Bytes) : SiftLaw data where
  sifted count := by
    obtain ⟨frames, fault, reached, items⟩ := exists_reached data count
    exact ⟨frames, fault, reached.sifted items rfl⟩
  accepted_iff := by
    constructor
    · intro clean
      obtain ⟨frames, fault, reached, items⟩ := exists_reached data (data.length / headerSize + 1)
      have sound : fault = none := by
        cases fault with
        | none => rfl
        | some e =>
          refine absurd ?_ (clean (data.length / headerSize + 1) e)
          rw [items]
          exact List.mem_append_right _ (List.mem_singleton_self _)
      subst sound
      refine ⟨frames.map Frame.record, ?_, reached.data_eq_encodings
        (reached.next_of_lt (Nat.lt_succ_self _))⟩
      intro r member
      obtain ⟨f, read, rfl⟩ := List.mem_map.1 member
      exact (reached.encodings f read).stated
    · rintro ⟨rs, stated, rfl⟩ count e refused
      rw [reads_encodings stated] at refused
      obtain ⟨r, -, same⟩ := List.mem_map.1 refused
      cases same
  exact := by
    rintro rs stated rfl count
    rw [reads_encodings stated]

/-- Bytes that begin with a record and go on with a length that is negative. -/
example : (ofBytes ((⟨7, .info, 3, [104]⟩ : Record).encode ++ List.replicate 14 255)).reads 3 =
    ([.ok ⟨⟨7, .info, 3, [104]⟩, (⟨7, .info, 3, [104]⟩ : Record).encode⟩,
      .error (.lengthMismatch (-1) 0)], ⟨List.replicate 14 255, 15, true⟩) := by cbv

end FrameStream

end LogRelay
