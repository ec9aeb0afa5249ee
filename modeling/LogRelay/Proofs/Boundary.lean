/-
# Cutting a text between two characters

A text that does not fit is cut in front of the first character that does not fit. On characters
that is a walk from the front (`fitChars`); on bytes it is a search backwards from the end of the
room for a byte that begins a character (`boundaryBefore`). The two find the same place, because the
first byte of a character is never a continuation and all its other bytes are.

Key definitions: `fitChars`, `LongestFit`.
Key theorems: `exists_utf8EncodeChar_eq`, `boundaryBefore_char_append`, `utf8Chars_fitChars`,
`longestFit_fitChars`.
-/
import LogRelay.Text.Utf8

namespace LogRelay

/-! ### The bytes of a text -/

theorem utf8Chars_nil : utf8Chars [] = [] := rfl

theorem utf8Chars_cons (c : Char) (text : List Char) :
    utf8Chars (c :: text) = String.utf8EncodeChar c ++ utf8Chars text :=
  List.flatMap_cons

theorem utf8Chars_append (text more : List Char) :
    utf8Chars (text ++ more) = utf8Chars text ++ utf8Chars more :=
  List.flatMap_append

theorem length_utf8Chars_cons (c : Char) (text : List Char) :
    (utf8Chars (c :: text)).length = c.utf8Size + (utf8Chars text).length := by
  rw [utf8Chars_cons, List.length_append, String.length_utf8EncodeChar]

theorem length_utf8Chars_append (text more : List Char) :
    (utf8Chars (text ++ more)).length = (utf8Chars text).length + (utf8Chars more).length := by
  rw [utf8Chars_append, List.length_append]

theorem utf8Chars_isPrefix {text whole : List Char} (begins : text <+: whole) :
    utf8Chars text <+: utf8Chars whole := by
  obtain ⟨rest, rfl⟩ := begins
  rw [utf8Chars_append]
  exact List.prefix_append _ _

/-! ### First bytes and continuations -/

/-- The byte that carries six bits of a character behind the first byte. -/
theorem isContinuation_six_bits (k : Nat) : isContinuation (UInt8.ofNat (k % 64 + 128)) = true := by
  have all : ∀ bits < 64, isContinuation (UInt8.ofNat (bits + 128)) = true := by decide
  exact all _ (Nat.mod_lt k (by decide))

/-- A character has one first byte, and only the bytes behind it are continuations. -/
theorem exists_utf8EncodeChar_eq (c : Char) : ∃ first more,
    String.utf8EncodeChar c = first :: more ∧ isContinuation first = false ∧
      ∀ b ∈ more, isContinuation b = true := by
  -- a first byte is told from a continuation by what stands above the bits of the character
  have one : ∀ bits < 128, isContinuation (UInt8.ofNat bits) = false := by decide
  have two : ∀ bits < 32, isContinuation (UInt8.ofNat (bits + 192)) = false := by decide
  have three : ∀ bits < 16, isContinuation (UInt8.ofNat (bits + 224)) = false := by decide
  have four : ∀ bits < 8, isContinuation (UInt8.ofNat (bits + 240)) = false := by decide
  unfold String.utf8EncodeChar
  by_cases ascii : c.val.toNat ≤ 127
  · refine ⟨_, _, if_pos ascii, one _ (by omega), List.forall_mem_nil _⟩
  by_cases short : c.val.toNat ≤ 2047
  · refine ⟨_, _, (if_neg ascii).trans (if_pos short), two _ (Nat.mod_lt _ (by decide)), ?_⟩
    exact List.forall_mem_singleton.2 (isContinuation_six_bits _)
  by_cases middle : c.val.toNat ≤ 65535
  · refine ⟨_, _, (if_neg ascii).trans ((if_neg short).trans (if_pos middle)),
      three _ (Nat.mod_lt _ (by decide)), ?_⟩
    simp only [List.forall_mem_cons]
    exact ⟨isContinuation_six_bits _, isContinuation_six_bits _, List.forall_mem_nil _⟩
  · refine ⟨_, _, (if_neg ascii).trans ((if_neg short).trans (if_neg middle)),
      four _ (Nat.mod_lt _ (by decide)), ?_⟩
    simp only [List.forall_mem_cons]
    exact ⟨isContinuation_six_bits _, isContinuation_six_bits _, isContinuation_six_bits _,
      List.forall_mem_nil _⟩

/-! ### Boundaries -/

theorem isBoundary_utf8Chars_zero (text : List Char) : isBoundary (utf8Chars text) 0 = true := by
  cases text with
  | nil => rfl
  | cons c rest =>
    obtain ⟨first, more, spelt, starts, -⟩ := exists_utf8EncodeChar_eq c
    rw [utf8Chars_cons, spelt, isBoundary]
    simp [starts]

theorem isBoundary_inside {c : Char} {rest : Bytes} {k : Nat} (behind : 0 < k)
    (inside : k < c.utf8Size) :
    isBoundary (String.utf8EncodeChar c ++ rest) k = false := by
  obtain ⟨first, more, spelt, -, continued⟩ := exists_utf8EncodeChar_eq c
  have size : more.length + 1 = c.utf8Size := by
    rw [← String.length_utf8EncodeChar, spelt, List.length_cons]
  obtain ⟨j, rfl⟩ : ∃ j, k = j + 1 := ⟨k - 1, by omega⟩
  have within : j < more.length := by omega
  have found : (String.utf8EncodeChar c ++ rest)[j + 1]? = some more[j] := by
    rw [spelt, List.cons_append, List.getElem?_cons_succ, List.getElem?_append_left within,
      List.getElem?_eq_getElem within]
  rw [isBoundary, found]
  simp [continued _ (List.getElem_mem within)]

theorem isBoundary_behind (c : Char) (rest : Bytes) (k : Nat) :
    isBoundary (String.utf8EncodeChar c ++ rest) (c.utf8Size + k) = isBoundary rest k := by
  have past : (String.utf8EncodeChar c).length ≤ c.utf8Size + k := by
    rw [String.length_utf8EncodeChar]
    exact Nat.le_add_right _ _
  rw [isBoundary, isBoundary, List.getElem?_append_right past, String.length_utf8EncodeChar,
    Nat.add_sub_cancel_left]

theorem boundaryBefore_char_of_lt {c : Char} {rest : Bytes} {k : Nat} (inside : k < c.utf8Size) :
    boundaryBefore (String.utf8EncodeChar c ++ rest) k = 0 := by
  induction k with
  | zero => rfl
  | succ k ih =>
    rw [boundaryBefore, isBoundary_inside (Nat.succ_pos k) inside, if_neg Bool.false_ne_true]
    exact ih (by omega)

/-- The search stops behind the first character at the latest, if it begins behind it. -/
theorem boundaryBefore_char_append (c : Char) (text : List Char) (k : Nat) :
    boundaryBefore (String.utf8EncodeChar c ++ utf8Chars text) (c.utf8Size + k) =
      c.utf8Size + boundaryBefore (utf8Chars text) k := by
  induction k with
  | zero =>
    obtain ⟨j, size⟩ : ∃ j, c.utf8Size = j + 1 :=
      ⟨c.utf8Size - 1, (Nat.succ_pred_eq_of_pos c.utf8Size_pos).symm⟩
    have here := isBoundary_behind c (utf8Chars text) 0
    rw [isBoundary_utf8Chars_zero, Nat.add_zero, size] at here
    rw [Nat.add_zero, size]
    exact if_pos here
  | succ k ih =>
    have same := isBoundary_behind c (utf8Chars text) (k + 1)
    rw [← Nat.add_assoc] at same ⊢
    rw [boundaryBefore, boundaryBefore, same, ih]
    split <;> rfl

/-! ### The characters that fit -/

/-- The characters of a text up to the first that does not fit into `room` bytes. -/
def fitChars : Nat → List Char → List Char
  | _, [] => []
  | room, c :: rest => if c.utf8Size ≤ room then c :: fitChars (room - c.utf8Size) rest else []

/-- A text is cut as late as possible: at most `room` bytes are left, and no longer part from the
front of the text has as few. -/
structure LongestFit (room : Nat) (text cut : List Char) : Prop where
  isPrefix : cut <+: text
  fits : (utf8Chars cut).length ≤ room
  longest : ∀ front, front <+: text → (utf8Chars front).length ≤ room → front <+: cut

variable {room : Nat} {c : Char} {text front more : List Char}

theorem fitChars_cons_of_le (fits : c.utf8Size ≤ room) :
    fitChars room (c :: text) = c :: fitChars (room - c.utf8Size) text := by
  rw [fitChars, if_pos fits]

theorem fitChars_cons_of_lt (long : room < c.utf8Size) : fitChars room (c :: text) = [] := by
  rw [fitChars, if_neg (Nat.not_le_of_gt long)]

/-- **The place found on bytes is the place found on characters.** -/
theorem utf8Chars_fitChars (room : Nat) (text : List Char) :
    utf8Chars (fitChars room text) = (utf8Chars text).take
      (boundaryBefore (utf8Chars text) (min (utf8Chars text).length room)) := by
  induction text generalizing room with
  | nil => simp [fitChars, utf8Chars_nil]
  | cons c rest ih =>
    by_cases fits : c.utf8Size ≤ room
    · have start : min (utf8Chars (c :: rest)).length room =
          c.utf8Size + min (utf8Chars rest).length (room - c.utf8Size) := by
        rw [length_utf8Chars_cons]
        omega
      rw [fitChars_cons_of_le fits, start, utf8Chars_cons, utf8Chars_cons, ih,
        boundaryBefore_char_append, ← String.length_utf8EncodeChar, List.take_length_add_append]
    · have start : min (utf8Chars (c :: rest)).length room = room := by
        rw [length_utf8Chars_cons]
        omega
      rw [fitChars_cons_of_lt (by omega), start, utf8Chars_cons,
        boundaryBefore_char_of_lt (by omega), List.take_zero, utf8Chars_nil]

theorem fitChars_isPrefix (room : Nat) (text : List Char) : fitChars room text <+: text := by
  induction text generalizing room with
  | nil => exact List.prefix_rfl
  | cons c rest ih =>
    by_cases fits : c.utf8Size ≤ room
    · rw [fitChars_cons_of_le fits]
      exact List.cons_prefix_cons.2 ⟨rfl, ih _⟩
    · rw [fitChars_cons_of_lt (by omega)]
      exact List.nil_prefix

theorem length_fitChars_le (room : Nat) (text : List Char) :
    (utf8Chars (fitChars room text)).length ≤ room := by
  induction text generalizing room with
  | nil => exact Nat.zero_le _
  | cons c rest ih =>
    by_cases fits : c.utf8Size ≤ room
    · have others := ih (room - c.utf8Size)
      rw [fitChars_cons_of_le fits, length_utf8Chars_cons]
      omega
    · rw [fitChars_cons_of_lt (by omega)]
      exact Nat.zero_le _

/-- What fits is kept, and the text behind it is cut to the room that is left. -/
theorem fitChars_append_of_le (fits : (utf8Chars front).length ≤ room) :
    fitChars room (front ++ more) = front ++ fitChars (room - (utf8Chars front).length) more := by
  induction front generalizing room with
  | nil => rfl
  | cons c rest ih =>
    rw [length_utf8Chars_cons] at fits
    have others : (utf8Chars rest).length ≤ room - c.utf8Size := by omega
    rw [List.cons_append, fitChars_cons_of_le (by omega), ih others, length_utf8Chars_cons,
      Nat.sub_sub]
    rfl

/-- What stands behind a text that does not fit makes no difference. -/
theorem fitChars_append_of_lt (long : room < (utf8Chars front).length) :
    fitChars room (front ++ more) = fitChars room front := by
  induction front generalizing room with
  | nil => exact absurd long (Nat.not_lt_zero _)
  | cons c rest ih =>
    rw [length_utf8Chars_cons] at long
    rw [List.cons_append]
    by_cases fits : c.utf8Size ≤ room
    · rw [fitChars_cons_of_le fits, fitChars_cons_of_le fits, ih (by omega)]
    · rw [fitChars_cons_of_lt (by omega), fitChars_cons_of_lt (by omega)]

theorem fitChars_of_le (fits : (utf8Chars text).length ≤ room) : fitChars room text = text := by
  have whole : fitChars room (text ++ []) = text ++ fitChars _ [] := fitChars_append_of_le fits
  rwa [List.append_nil, fitChars, List.append_nil] at whole

/-- The cut is made in front of the first character that does not fit, so it is the longest. -/
theorem longestFit_fitChars (room : Nat) (text : List Char) :
    LongestFit room text (fitChars room text) where
  isPrefix := fitChars_isPrefix room text
  fits := length_fitChars_le room text
  longest := by
    rintro front ⟨rest, rfl⟩ fits
    rw [fitChars_append_of_le fits]
    exact List.prefix_append _ _

theorem fitChars_eq_nil_iff :
    fitChars room text = [] ↔ ∀ c rest, text = c :: rest → room < c.utf8Size := by
  cases text with
  | nil => simp [fitChars]
  | cons c rest =>
    by_cases fits : c.utf8Size ≤ room
    · rw [fitChars_cons_of_le fits]
      simp [fits]
    · rw [fitChars_cons_of_lt (by omega)]
      simp only [true_iff]
      rintro _ _ ⟨⟩
      omega

/-- A cut leaves less room than the longest character needs. -/
theorem lt_length_fitChars_add_four (long : room < (utf8Chars text).length) :
    room < (utf8Chars (fitChars room text)).length + 4 := by
  induction text generalizing room with
  | nil => exact absurd long (Nat.not_lt_zero _)
  | cons c rest ih =>
    rw [length_utf8Chars_cons] at long
    have most := c.utf8Size_le_four
    by_cases fits : c.utf8Size ≤ room
    · have others : room - c.utf8Size < _ := ih (by omega)
      rw [fitChars_cons_of_le fits, length_utf8Chars_cons]
      omega
    · rw [fitChars_cons_of_lt (by omega)]
      show room < 0 + 4
      omega

end LogRelay
