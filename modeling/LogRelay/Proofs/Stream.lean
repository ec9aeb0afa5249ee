/-
# Reading a stream that was cut

Records are written back to back, and whoever writes them may be stopped at any byte. What is left
is read up to the last record that is there in full. If the cut is inside a record, one error says
how much of it is there: of a header that is cut it says that a header is needed, and of a message
that is cut, how long the whole encoding is. Nothing comes after that, and the position stays behind
the last record that is whole.

Key definitions: `boundary`, `wholeCount`, `torn`.
Key theorems: `lt_wholeCount_iff`, `FrameStream.next_readAll`, `FrameStream.front_take`,
`FrameStream.readAll_take`, `FrameStream.readAll_cut`.
-/
import LogRelay.Proofs.Codec

namespace LogRelay

/-! ### Cuts -/

/-- Where the encodings of the first `k` records end. -/
def boundary (rs : List Record) (k : Nat) : Nat := ((rs.take k).flatMap Record.encode).length

/-- How many records end at or before a cut. -/
def wholeCount : List Record → Nat → Nat
  | [], _ => 0
  | r :: rs, cut =>
    if r.encode.length ≤ cut then wholeCount rs (cut - r.encode.length) + 1 else 0

/-- What is said of a record of which only the first `left` bytes are there. -/
def torn (r : Record) (left : Nat) : List (Except FrameError Frame) :=
  if left = 0 then []
  else [.error (.truncated (if left < headerSize then headerSize else r.encode.length) left)]

theorem boundary_cons (r : Record) (rs : List Record) (k : Nat) :
    boundary (r :: rs) (k + 1) = r.encode.length + boundary rs k := by
  rw [boundary, List.take_succ_cons, List.flatMap_cons, List.length_append, boundary]

theorem wholeCount_le : ∀ (rs : List Record) (cut : Nat), wholeCount rs cut ≤ rs.length
  | [], _ => Nat.le_refl 0
  | r :: rs, cut => by
    rw [wholeCount]
    split
    · exact Nat.succ_le_succ (wholeCount_le rs _)
    · exact Nat.zero_le _

theorem lt_wholeCount_iff : ∀ (rs : List Record) (cut i : Nat), i < rs.length →
    (i < wholeCount rs cut ↔ boundary rs (i + 1) ≤ cut)
  | [], _, _, inside => absurd inside (Nat.not_lt_zero _)
  | r :: rs, cut, i, inside => by
    rw [wholeCount, boundary_cons]
    split
    · next whole =>
      cases i with
      | zero =>
        have none : boundary rs 0 = 0 := rfl
        omega
      | succ i =>
        have rest := lt_wholeCount_iff rs (cut - r.encode.length) i (Nat.lt_of_succ_lt_succ inside)
        omega
    · omega

theorem boundary_wholeCount_le (rs : List Record) (cut : Nat) :
    boundary rs (wholeCount rs cut) ≤ cut := by
  have within := wholeCount_le rs cut
  cases some : wholeCount rs cut with
  | zero => exact Nat.zero_le cut
  | succ k => exact (lt_wholeCount_iff rs cut k (by omega)).1 (by omega)

theorem boundary_wholeCount_of_length {rs : List Record} {cut : Nat}
    (inside : cut ≤ (rs.flatMap Record.encode).length) (all : wholeCount rs cut = rs.length) :
    boundary rs (wholeCount rs cut) = cut := by
  have within := boundary_wholeCount_le rs cut
  rw [all, boundary, List.take_length] at within ⊢
  exact Nat.le_antisymm within inside

namespace FrameStream

/-! ### The end of a stream -/

theorem eq_of_next_none {s t : FrameStream} (h : s.next = (none, t)) : t = s := by
  unfold next at h
  split at h
  · exact (Prod.mk.inj h).2.symm
  · split at h <;> cases h

/-- Whoever has read everything reads nothing more, however often. -/
theorem next_readAll (s : FrameStream) : s.readAll.2.next = (none, s.readAll.2) := by
  fun_induction readAll s with
  | case1 s t ended =>
    have still := eq_of_next_none ended
    rw [still] at ended ⊢
    exact ended
  | case2 s item t _ more ih => exact ih

/-- The first bytes of an encoding are no frame, and it is said how much is missing. -/
theorem front_take {r : Record} (stated : r.message.length ≤ maxMessageLength) {left : Nat}
    (inside : left < r.encode.length) : front (r.encode.take left) =
      .error (.truncated (if left < headerSize then headerSize else r.encode.length) left) := by
  have length : (r.encode.take left).length = left := by
    rw [List.length_take]
    omega
  by_cases short : left < headerSize
  · simp only [front, length, if_pos short]
  · have header : r.encode.take left = header r.timestamp r.severity r.component r.message.length ++
        r.message.take (left - headerSize) := by
      rw [Record.encode, List.take_append, length_header, List.take_of_length_le]
      rw [length_header]
      omega
    have declared : Frame.declaredLength (r.encode.take left) = r.message.length := by
      rw [header, Frame.declaredLength_header_append _ _ _ _ stated]
    have total : headerSize + ((r.message.length : Int)).toNat = r.encode.length := by
      rw [Record.length_encode, Int.toNat_natCast]
    have positive : ¬ (r.message.length : Int) < 0 := by omega
    simp only [front, length, declared, total, if_neg short, if_neg positive, if_pos inside]

theorem readAll_torn {r : Record} (stated : r.message.length ≤ maxMessageLength) {left : Nat}
    (inside : left < r.encode.length) (position : Nat) :
    (readAll ⟨r.encode.take left, position, false⟩).1 = torn r left ∧
      (readAll ⟨r.encode.take left, position, false⟩).2.position = position := by
  by_cases none : left = 0
  · rw [none, List.take_zero, readAll]
    simp [next, torn]
  · have some : r.encode.take left ≠ [] := by
      intro nil
      have length := congrArg List.length nil
      rw [List.length_take, List.length_nil] at length
      omega
    have first : next ⟨r.encode.take left, position, false⟩ =
        (.some (.error (.truncated (if left < headerSize then headerSize else r.encode.length)
          left)), ⟨r.encode.take left, position, true⟩) := by
      simp only [next, front_take stated inside, some, or_false, Bool.false_eq_true, if_false]
    have last : readAll ⟨r.encode.take left, position, true⟩ =
        ([], ⟨r.encode.take left, position, true⟩) := by
      rw [readAll]
      simp [next]
    rw [readAll_of_next first, last, torn, if_neg none]
    exact ⟨rfl, rfl⟩

/-- **A stream that is cut is read up to the last record that is whole.** -/
theorem readAll_take : ∀ (rs : List Record) (cut position : Nat),
    (∀ r ∈ rs, r.message.length ≤ maxMessageLength) →
      (readAll ⟨(rs.flatMap Record.encode).take cut, position, false⟩).1 =
          ((rs.take (wholeCount rs cut)).map fun r => .ok ⟨r, r.encode⟩) ++
            (rs[wholeCount rs cut]?).elim []
              (torn · (cut - boundary rs (wholeCount rs cut))) ∧
        (readAll ⟨(rs.flatMap Record.encode).take cut, position, false⟩).2.position =
          position + boundary rs (wholeCount rs cut)
  | [], cut, position, _ => by
    rw [List.flatMap_nil, List.take_nil, readAll]
    simp [next, wholeCount, boundary]
  | r :: rs, cut, position, stated => by
    have mine := stated r List.mem_cons_self
    rw [List.flatMap_cons, wholeCount]
    by_cases whole : r.encode.length ≤ cut
    · have split : (r.encode ++ rs.flatMap Record.encode).take cut =
          r.encode ++ (rs.flatMap Record.encode).take (cut - r.encode.length) := by
        rw [List.take_append, List.take_of_length_le whole]
      obtain ⟨items, last⟩ := readAll_take rs (cut - r.encode.length) (position + r.encode.length)
        fun q member => stated q (List.mem_cons_of_mem r member)
      rw [if_pos whole, boundary_cons, split, readAll_of_next (next_encode_append mine _ position),
        items, last, List.take_succ_cons, List.map_cons, List.getElem?_cons_succ, Nat.sub_sub,
        Nat.add_assoc]
      exact ⟨rfl, rfl⟩
    · have inside : cut < r.encode.length := Nat.not_le.1 whole
      have front : (r.encode ++ rs.flatMap Record.encode).take cut = r.encode.take cut :=
        List.take_append_of_le_length (Nat.le_of_lt inside)
      rw [if_neg whole, front]
      exact readAll_torn mine inside position

/-- **The law of a stream that was cut.** Read are the records that end at or before the cut. If
there is something left behind the last of them, one error says how much of the next record it is.
After that nothing is read, however often it is tried, and the position stays at the end of the last
record that is whole. -/
theorem readAll_cut (rs : List Record) (stated : ∀ r ∈ rs, r.message.length ≤ maxMessageLength)
    (cut : Nat) (inside : cut ≤ (rs.flatMap Record.encode).length) :
    ∃ (whole left : Nat) (last : FrameStream),
      whole ≤ rs.length ∧ (∀ i < rs.length, i < whole ↔ boundary rs (i + 1) ≤ cut) ∧
      boundary rs whole + left = cut ∧ (whole = rs.length → left = 0) ∧
      readAll (ofBytes ((rs.flatMap Record.encode).take cut)) =
        (((rs.take whole).map fun r => .ok ⟨r, r.encode⟩) ++ (rs[whole]?).elim [] (torn · left),
          last) ∧
      last.position = boundary rs whole ∧ last.next = (none, last) := by
  have within := boundary_wholeCount_le rs cut
  obtain ⟨items, position⟩ := readAll_take rs cut 0 stated
  refine ⟨wholeCount rs cut, cut - boundary rs (wholeCount rs cut), _, wholeCount_le rs cut,
    lt_wholeCount_iff rs cut, Nat.add_sub_cancel' within, fun all => ?_, Prod.ext items rfl,
    position.trans (Nat.zero_add _), next_readAll _⟩
  rw [boundary_wholeCount_of_length inside all, Nat.sub_self]

/-- Two records, the second of which is cut inside its message. -/
theorem readAll_cut_message :
    let first : Record := ⟨7, .info, 3, [104, 105]⟩
    let second : Record := ⟨8, .warn, 3, [98, 121, 101]⟩
    (∀ r ∈ [first, second], r.message.length ≤ maxMessageLength) ∧
      32 ≤ ([first, second].flatMap Record.encode).length ∧
      ∃ last, readAll (ofBytes (([first, second].flatMap Record.encode).take 32)) =
        ([.ok ⟨first, first.encode⟩, .error (.truncated 17 16)], last) ∧ last.position = 16 := by
  intro first second
  have stated : ∀ r ∈ [first, second], r.message.length ≤ maxMessageLength := by decide
  have inside : 32 ≤ ([first, second].flatMap Record.encode).length := by decide
  obtain ⟨whole, left, last, within, counted, rest, -, read, position, -⟩ :=
    readAll_cut [first, second] stated 32 inside
  have one : 0 < whole := (counted 0 (by decide)).2 (by decide)
  have two : ¬ 1 < whole := fun more => absurd ((counted 1 (by decide)).1 more) (by decide)
  obtain rfl : whole = 1 := by omega
  have start : boundary [first, second] 1 = 16 := by decide
  obtain rfl : left = 16 := by omega
  exact ⟨stated, inside, last, read, position.trans start⟩

end FrameStream

end LogRelay
