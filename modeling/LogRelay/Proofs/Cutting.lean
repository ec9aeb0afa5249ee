/-
# Messages that are formatted piece by piece

The pieces of a message are cut one by one, each in front of its first character that does not fit.
So the message begins with the whole text cut to its area, but it need not end there: a cut may
leave up to three bytes of room, and a later piece whose first character is short enough slips in
behind it (`late_piece_slips_in`). The message is the whole text cut once exactly if no piece behind
the cut begins with such a character.

All of it is shown for the pieces written so far, with one more piece added at the end.

Key definitions: `Script.pieces`, `addFitting`, `keepFitting`, `CutsOnce`, `CutInPieces`.
Key theorems: `fitChars_prefix_keepFitting`, `cutsOnce_concat`, `keepFitting_eq_iff`,
`Channel.log_pieces`.
-/
import LogRelay.Proofs.Boundary
import LogRelay.Proofs.Retention
import LogRelay.Proofs.Writing
import Mathlib.Data.List.Induction

namespace LogRelay

/-! ### Pieces -/

/-- The pieces of text that a script writes, as characters. -/
def Script.pieces {n : Nat} (s : Script n) : List (List Char) := s.texts.map String.toList

/-- A text with as many characters of a piece behind it as fit into `room` bytes. -/
def addFitting (room : Nat) (kept piece : List Char) : List Char :=
  kept ++ fitChars (room - (utf8Chars kept).length) piece

/-- What is kept of some pieces that are cut one by one. -/
def keepFitting (room : Nat) (pieces : List (List Char)) : List Char :=
  pieces.foldl (addFitting room) []

/-- No piece behind the cut begins with a character that the cut left room for. A piece is behind
the cut if what is written before it does not fit. -/
def CutsOnce (room : Nat) (pieces : List (List Char)) (cut : List Char) : Prop :=
  ∀ front c rest, front ++ [c :: rest] <+: pieces →
    room < (utf8Chars front.flatten).length → room < (utf8Chars cut).length + c.utf8Size

/-- What is kept of some pieces beside what the whole text would be cut to. -/
structure CutInPieces (room : Nat) (pieces : List (List Char)) (cut kept : List Char) : Prop where
  longest : LongestFit room pieces.flatten cut
  begins : cut <+: kept
  /-- All of it is text of the pieces, in their order. -/
  ordered : kept.Sublist pieces.flatten
  fits : (utf8Chars kept).length ≤ room
  near : (utf8Chars kept).length ≤ (utf8Chars cut).length + 3
  /-- The pieces are cut as one text exactly if none slips in behind the cut. -/
  exact_iff : kept = cut ↔ CutsOnce room pieces cut

theorem fitText_utf8Chars (room : Nat) (kept : List Char) (text : String) :
    fitText room (utf8Chars kept) text = utf8Chars (addFitting room kept text.toList) := by
  rw [addFitting, utf8Chars_append, utf8Chars_fitChars]
  rfl

/-- A message that is formatted is what is kept of its pieces. -/
theorem Entry.message_formatted {n : Nat} (room : Nat) (h : Heading n) (script : Script n) :
    (Entry.formatted h script).message room = utf8Chars (keepFitting room script.pieces) := by
  have same : script.texts.foldl (fitText room) (utf8Chars []) =
      utf8Chars (script.texts.foldl (fun kept text => addFitting room kept text.toList) []) :=
    List.foldl_hom utf8Chars fun kept text => fitText_utf8Chars room kept text
  rw [keepFitting, Script.pieces, List.foldl_map, ← same]
  rfl

/-! ### One piece more -/

variable {room : Nat} {pieces : List (List Char)} {kept piece cut : List Char}

theorem addFitting_of_le (fits : (utf8Chars kept).length ≤ room) :
    addFitting room kept piece = fitChars room (kept ++ piece) := by
  rw [addFitting, fitChars_append_of_le fits]

theorem addFitting_eq_self_iff (fits : (utf8Chars kept).length ≤ room) :
    addFitting room kept piece = kept ↔
      ∀ c rest, piece = c :: rest → room < (utf8Chars kept).length + c.utf8Size := by
  rw [addFitting, List.append_right_eq_self, fitChars_eq_nil_iff]
  refine forall_congr' fun c => forall_congr' fun rest => imp_congr_right fun _ => ?_
  omega

theorem addFitting_eq_cut_iff (begins : cut <+: kept) (fits : (utf8Chars kept).length ≤ room) :
    addFitting room kept piece = cut ↔
      kept = cut ∧ ∀ c rest, piece = c :: rest → room < (utf8Chars cut).length + c.utf8Size := by
  constructor
  · intro same
    have back : kept <+: cut := by
      rw [← same]
      exact List.prefix_append _ _
    obtain rfl : kept = cut := back.eq_of_length_le begins.length_le
    exact ⟨rfl, (addFitting_eq_self_iff fits).1 same⟩
  · rintro ⟨rfl, last⟩
    exact (addFitting_eq_self_iff fits).2 last

theorem keepFitting_concat (room : Nat) (pieces : List (List Char)) (piece : List Char) :
    keepFitting room (pieces ++ [piece]) = addFitting room (keepFitting room pieces) piece := by
  rw [keepFitting, List.foldl_append]
  rfl

theorem flatten_concat (pieces : List (List Char)) (piece : List Char) :
    (pieces ++ [piece]).flatten = pieces.flatten ++ piece := by
  rw [List.flatten_append, List.flatten_singleton]

theorem length_flatten_le {front : List (List Char)} (begins : front <+: pieces) :
    (utf8Chars front.flatten).length ≤ (utf8Chars pieces.flatten).length := by
  obtain ⟨behind, rfl⟩ := begins
  rw [List.flatten_append, length_utf8Chars_append]
  exact Nat.le_add_right _ _

/-- As long as the text in front of the last piece fits, no piece is behind the cut. -/
theorem cutsOnce_of_le (fits : (utf8Chars pieces.flatten).length ≤ room) :
    CutsOnce room (pieces ++ [piece]) cut := by
  intro front c rest begins passed
  have inside : front <+: pieces := by
    rcases List.prefix_concat_iff.1 begins with whole | before
    · obtain ⟨rfl, -⟩ := List.append_singleton_inj.1 whole
      exact List.prefix_rfl
    · exact (List.prefix_append _ _).trans before
  have shorter := length_flatten_le inside
  omega

theorem cutsOnce_concat (long : room < (utf8Chars pieces.flatten).length) :
    CutsOnce room (pieces ++ [piece]) cut ↔ CutsOnce room pieces cut ∧
      ∀ c rest, piece = c :: rest → room < (utf8Chars cut).length + c.utf8Size := by
  constructor
  · intro once
    constructor
    · intro front c rest begins
      exact once front c rest (begins.trans (List.prefix_append _ _))
    · rintro c rest rfl
      exact once pieces c rest List.prefix_rfl long
  · rintro ⟨once, last⟩ front c rest begins passed
    rcases List.prefix_concat_iff.1 begins with whole | before
    · exact last c rest (List.append_singleton_inj.1 whole).2.symm
    · exact once front c rest before passed

/-! ### All pieces -/

theorem length_keepFitting_le (room : Nat) (pieces : List (List Char)) :
    (utf8Chars (keepFitting room pieces)).length ≤ room := by
  induction pieces using List.reverseRecOn with
  | nil => exact Nat.zero_le _
  | append_singleton pieces piece ih =>
    rw [keepFitting_concat, addFitting_of_le ih]
    exact length_fitChars_le _ _

theorem keepFitting_of_le (fits : (utf8Chars pieces.flatten).length ≤ room) :
    keepFitting room pieces = pieces.flatten := by
  induction pieces using List.reverseRecOn with
  | nil => rfl
  | append_singleton pieces piece ih =>
    have before := ih (Nat.le_trans (length_flatten_le (List.prefix_append _ _)) fits)
    rw [keepFitting_concat, addFitting_of_le (length_keepFitting_le _ _), before, ← flatten_concat,
      fitChars_of_le fits]

theorem keepFitting_sublist (room : Nat) (pieces : List (List Char)) :
    (keepFitting room pieces).Sublist pieces.flatten := by
  induction pieces using List.reverseRecOn with
  | nil => exact List.Sublist.refl _
  | append_singleton pieces piece ih =>
    rw [keepFitting_concat, flatten_concat]
    exact ih.append (fitChars_isPrefix _ _).sublist

/-- The message begins with the whole text cut once. -/
theorem fitChars_prefix_keepFitting (room : Nat) (pieces : List (List Char)) :
    fitChars room pieces.flatten <+: keepFitting room pieces := by
  induction pieces using List.reverseRecOn with
  | nil => exact List.prefix_rfl
  | append_singleton pieces piece ih =>
    rw [keepFitting_concat, flatten_concat]
    by_cases fits : (utf8Chars pieces.flatten).length ≤ room
    · have same : addFitting room pieces.flatten piece = _ := addFitting_of_le fits
      rw [keepFitting_of_le fits]
      exact ⟨[], (List.append_nil _).trans same.symm⟩
    · rw [fitChars_append_of_lt (by omega)]
      exact ih.trans (List.prefix_append _ _)

/-- **The message is the whole text cut once exactly if no later piece slips in.** -/
theorem keepFitting_eq_iff (room : Nat) (pieces : List (List Char)) :
    keepFitting room pieces = fitChars room pieces.flatten ↔
      CutsOnce room pieces (fitChars room pieces.flatten) := by
  induction pieces using List.reverseRecOn with
  | nil => simp [keepFitting, fitChars, CutsOnce]
  | append_singleton pieces piece ih =>
    rw [keepFitting_concat, flatten_concat]
    by_cases fits : (utf8Chars pieces.flatten).length ≤ room
    · rw [keepFitting_of_le fits, addFitting_of_le fits]
      exact iff_of_true rfl (cutsOnce_of_le fits)
    · -- the cut is behind us and stays where it is, so only the new piece is to be looked at
      have long : room < (utf8Chars pieces.flatten).length := Nat.lt_of_not_le fits
      rw [fitChars_append_of_lt long, cutsOnce_concat long, ← ih]
      exact addFitting_eq_cut_iff (fitChars_prefix_keepFitting room pieces)
        (length_keepFitting_le room pieces)

/-- A cut leaves three bytes of room at most, so no more than that can slip in. -/
theorem length_keepFitting_le_add (room : Nat) (pieces : List (List Char)) :
    (utf8Chars (keepFitting room pieces)).length ≤
      (utf8Chars (fitChars room pieces.flatten)).length + 3 := by
  by_cases fits : (utf8Chars pieces.flatten).length ≤ room
  · rw [keepFitting_of_le fits, fitChars_of_le fits]
    exact Nat.le_add_right _ _
  · have most := length_keepFitting_le room pieces
    have least := lt_length_fitChars_add_four (Nat.lt_of_not_le fits)
    omega

theorem cutInPieces (room : Nat) (pieces : List (List Char)) :
    CutInPieces room pieces (fitChars room pieces.flatten) (keepFitting room pieces) where
  longest := longestFit_fitChars room pieces.flatten
  begins := fitChars_prefix_keepFitting room pieces
  ordered := keepFitting_sublist room pieces
  fits := length_keepFitting_le room pieces
  near := length_keepFitting_le_add room pieces
  exact_iff := keepFitting_eq_iff room pieces

/-! ### What is published -/

namespace Channel

/-- **What a formatted entry publishes.** The message is what is kept of its pieces. It begins with
the longest part of the whole text that fits, and is this part exactly if no piece behind the cut
begins with a character that the cut left room for; what slips in otherwise is at most three bytes
of text. -/
theorem log_pieces (c : Channel) (buffer : Bytes) (now : UInt64) (h : Heading 1)
    (script : Script 1) (accepts : c.accepts h.severity = true) (ends : script.ending = .ok ()) :
    let room := messageRoom c.geometry.slotBytes
    let kept := keepFitting room script.pieces
    CutInPieces room script.pieces (fitChars room script.pieces.flatten) kept ∧
      (∃ reports notices, (c.log ⟨buffer, .free⟩ now (.formatted h script)).1 =
        (c.publish (Record.mk now h.severity h.component (utf8Chars kept)).encode).withReports
          reports notices) ∧
      c.logIfEnabled ⟨buffer, .free⟩ now (.formatted h script) =
        c.log ⟨buffer, .free⟩ now (.formatted h script) := by
  intro room kept
  obtain ⟨reports, notices, bytes, logged, -⟩ :=
    c.exists_log_eq ⟨buffer, .free⟩ now (.formatted h script)
  have wanted : c.accepts (Entry.formatted h script).heading.severity = true := accepts
  have published : c.record? .free now (.formatted h script) =
      some ⟨now, h.severity, h.component, utf8Chars kept⟩ := by
    rw [record?, ← Entry.message_formatted room h, if_pos wanted]
    simp only [Entry.record?, Entry.ending, ends, Entry.heading, room]
  refine ⟨cutInPieces room script.pieces, ⟨reports, notices, ?_⟩, logIfEnabled_eq_log _ _ _ _⟩
  rw [logged, published]
  rfl

/-- In an area of two bytes, only the first byte of "é" would fit behind "a", and "b" does. -/
theorem log_pieces_late :
    let c := Channel.ofGeometry .twoSlots .claimed .trace
    let h : Heading 1 := .solo .info 0
    let script : Script 1 := .text "aé" (.logs (.solo .warn 1) [0] (.text "b" .done))
    let room := messageRoom c.geometry.slotBytes
    let kept := keepFitting room script.pieces
    c.accepts h.severity = true ∧ script.ending = .ok () ∧
      CutInPieces room script.pieces (fitChars room script.pieces.flatten) kept ∧
      (∃ reports notices, (c.log ⟨[7], .free⟩ 5 (.formatted h script)).1 =
        (c.publish (Record.mk 5 h.severity h.component (utf8Chars kept)).encode).withReports
          reports notices) ∧
      c.logIfEnabled ⟨[7], .free⟩ 5 (.formatted h script) =
        c.log ⟨[7], .free⟩ 5 (.formatted h script) :=
  ⟨rfl, rfl, log_pieces _ [7] 5 _ _ rfl rfl⟩

/-- **A later piece slips in behind a cut.** Two bytes are left for the message. Of the pieces "aé"
and "b" the text "ab" is published, which is no first part of the whole text "aéb" at all. -/
theorem late_piece_slips_in :
    let c := Channel.ofGeometry .twoSlots .claimed .trace
    let entry : Entry 1 := .formatted (.solo .info 0) (.ofTexts ["aé", "b"])
    messageRoom c.geometry.slotBytes = 2 ∧
      (c.log {} 0 entry).1.ring.read 0 16 = .ready (Record.mk 0 .info 0 (utf8 "ab")).encode ∧
      ∀ cut, LongestFit 2 "aéb".toList cut → utf8Chars cut ≠ utf8 "ab" := by
  refine ⟨rfl, by decide, ?_⟩
  rintro cut ⟨begins, -, -⟩ same
  have bytes : utf8 "ab" <+: utf8 "aéb" := by
    rw [← same]
    exact utf8Chars_isPrefix begins
  exact absurd bytes (by decide)

end Channel

end LogRelay
