/-
# Text that is read as it was written

Reading bytes as text undoes writing text as bytes: the first byte of a character says how many
bytes follow it and in which range the next one lies, and a character of each length keeps to that
(`exists_readChar_eq`). So a replacement character is read from the bytes of a text only where it
was written.

A draft takes texts into an area of any size. Each of them is cut before the character that the room
that is left does not hold; to find that place is a search backwards, which ends inside the text
because a text begins with a first byte (`boundaryBefore?_utf8Chars`). What a draft holds is always
the encoding of whole characters (`Draft.Holds`), and the bytes of the area behind it are those that
were there before. So what is published of a formatted message is read as the characters kept of it.

Key definitions: `boundaryBefore?`, `Draft.Holds`, `Draft.Takes`, `Draft.Gathers`,
`Channel.Recovers`.
Key theorems: `exists_readChar_eq`, `decodeUtf8_utf8Chars`, `boundaryBefore?_utf8Chars`,
`Draft.Holds.addText`, `Draft.gathers_foldl_addText`, `Channel.recovers_log`, `text_is_kept`.
-/
import LogRelay.Proofs.Cutting
import LogRelay.Proofs.Nesting

namespace LogRelay

/-! ### First bytes -/

deriving instance DecidableEq for Lead

/-- The range of a byte that may be any continuation. -/
def anyContinuation : UInt8 × UInt8 := (0x80, 0xBF)

theorem lead_one : ∀ bits < 128, Lead.ofByte? (.ofNat bits) = some ⟨bits, []⟩ := by decide

theorem lead_two : ∀ bits < 32, 2 ≤ bits →
    Lead.ofByte? (.ofNat (bits + 192)) = some ⟨bits, [anyContinuation]⟩ := by decide

/-- Behind the least first byte the next one keeps out what fits into two bytes, and behind one
other it keeps out the surrogates. -/
theorem lead_three : ∀ bits < 16, Lead.ofByte? (.ofNat (bits + 224)) =
    some ⟨bits, [(if bits = 0 then 0xA0 else 0x80, if bits = 13 then 0x9F else 0xBF),
      anyContinuation]⟩ := by decide

/-- Behind the least first byte the next one keeps out what fits into three bytes, and behind the
greatest it keeps out what is no character any more. -/
theorem lead_four : ∀ bits < 5, Lead.ofByte? (.ofNat (bits + 240)) =
    some ⟨bits, [(if bits = 0 then 0x90 else 0x80, if bits = 4 then 0x8F else 0xBF),
      anyContinuation, anyContinuation]⟩ := by decide

/-! ### One character -/

section

variable {rest : Bytes}

/-- A byte with six bits that lies in its range adds them to what was read. -/
theorem follow_six_bits {low high : UInt8} {bits : Nat} (least : low.toNat ≤ bits % 64 + 128)
    (most : bits % 64 + 128 ≤ high.toNat) (code : Nat) (more : List (UInt8 × UInt8)) :
    follow code ((low, high) :: more) (.ofNat (bits % 64 + 128) :: rest) =
      follow (code * 64 + bits % 64) more rest := by
  have byte : (UInt8.ofNat (bits % 64 + 128)).toNat = bits % 64 + 128 := by
    rw [UInt8.toNat_ofNat']
    omega
  have inside : low ≤ .ofNat (bits % 64 + 128) ∧ .ofNat (bits % 64 + 128) ≤ high := by
    rw [UInt8.le_iff_toNat_le, UInt8.le_iff_toNat_le, byte]
    exact ⟨least, most⟩
  rw [follow, if_pos inside, byte, Nat.add_sub_cancel]

theorem follow_anyContinuation (code bits : Nat) (more : List (UInt8 × UInt8)) :
    follow code (anyContinuation :: more) (.ofNat (bits % 64 + 128) :: rest) =
      follow (code * 64 + bits % 64) more rest := by
  have least : (0x80 : UInt8).toNat = 128 := rfl
  have most : (0xBF : UInt8).toNat = 191 := rfl
  exact follow_six_bits (by omega) (by omega) code more

theorem readChar_of_follow {first : UInt8} {lead : Lead} {bytes : Bytes} {c : Char}
    (led : Lead.ofByte? first = some lead)
    (followed : follow lead.payload lead.follow bytes = (some c.toNat, rest)) :
    readChar first bytes = (c, rest) := by
  simp only [readChar, led, followed, Char.ofNat_toNat]

variable {c : Char}

theorem readChar_one (most : c.toNat ≤ 127) : readChar (.ofNat c.toNat) rest = (c, rest) :=
  readChar_of_follow (lead_one c.toNat (Nat.lt_succ_of_le most)) rfl

theorem readChar_two (least : 127 < c.toNat) (most : c.toNat ≤ 2047) :
    readChar (.ofNat (c.toNat / 64 % 32 + 192)) (.ofNat (c.toNat % 64 + 128) :: rest) =
      (c, rest) := by
  apply readChar_of_follow (lead_two (c.toNat / 64 % 32) (by omega) (by omega))
  have spelt : c.toNat / 64 % 32 * 64 + c.toNat % 64 = c.toNat := by omega
  rw [follow_anyContinuation, spelt, follow]

theorem readChar_three (least : 2047 < c.toNat) (most : c.toNat ≤ 65535) :
    readChar (.ofNat (c.toNat / 4096 % 16 + 224))
      (.ofNat (c.toNat / 64 % 64 + 128) :: .ofNat (c.toNat % 64 + 128) :: rest) = (c, rest) := by
  apply readChar_of_follow (lead_three (c.toNat / 4096 % 16) (by omega))
  have valid : c.toNat < 0xD800 ∨ 0xDFFF < c.toNat ∧ c.toNat < 0x110000 := c.valid
  have low : (if c.toNat / 4096 % 16 = 0 then 0xA0 else 0x80 : UInt8).toNat ≤
      c.toNat / 64 % 64 + 128 := by
    split <;> simp only [UInt8.reduceToNat] <;> omega
  have high : c.toNat / 64 % 64 + 128 ≤
      (if c.toNat / 4096 % 16 = 13 then 0x9F else 0xBF : UInt8).toNat := by
    split <;> simp only [UInt8.reduceToNat] <;> omega
  have spelt : (c.toNat / 4096 % 16 * 64 + c.toNat / 64 % 64) * 64 + c.toNat % 64 = c.toNat := by
    omega
  rw [follow_six_bits low high, follow_anyContinuation, spelt, follow]

theorem readChar_four (least : 65535 < c.toNat) :
    readChar (.ofNat (c.toNat / 262144 % 8 + 240))
      (.ofNat (c.toNat / 4096 % 64 + 128) :: .ofNat (c.toNat / 64 % 64 + 128) ::
        .ofNat (c.toNat % 64 + 128) :: rest) = (c, rest) := by
  have valid : c.toNat < 0xD800 ∨ 0xDFFF < c.toNat ∧ c.toNat < 0x110000 := c.valid
  apply readChar_of_follow (lead_four (c.toNat / 262144 % 8) (by omega))
  have low : (if c.toNat / 262144 % 8 = 0 then 0x90 else 0x80 : UInt8).toNat ≤
      c.toNat / 4096 % 64 + 128 := by
    split <;> simp only [UInt8.reduceToNat] <;> omega
  have high : c.toNat / 4096 % 64 + 128 ≤
      (if c.toNat / 262144 % 8 = 4 then 0x8F else 0xBF : UInt8).toNat := by
    split <;> simp only [UInt8.reduceToNat] <;> omega
  have spelt : ((c.toNat / 262144 % 8 * 64 + c.toNat / 4096 % 64) * 64 + c.toNat / 64 % 64) * 64 +
      c.toNat % 64 = c.toNat := by omega
  rw [follow_six_bits low high, follow_anyContinuation, follow_anyContinuation, spelt, follow]

end

/-- **A character that was written is read**, whatever stands behind it. -/
theorem exists_readChar_eq (c : Char) : ∃ first more, String.utf8EncodeChar c = first :: more ∧
    ∀ rest, readChar first (more ++ rest) = (c, rest) := by
  unfold String.utf8EncodeChar
  by_cases ascii : c.toNat ≤ 127
  · exact ⟨_, _, if_pos ascii, fun _ => readChar_one ascii⟩
  by_cases short : c.toNat ≤ 2047
  · exact ⟨_, _, (if_neg ascii).trans (if_pos short), fun _ => readChar_two (by omega) short⟩
  by_cases middle : c.toNat ≤ 65535
  · exact ⟨_, _, (if_neg ascii).trans ((if_neg short).trans (if_pos middle)),
      fun _ => readChar_three (by omega) middle⟩
  · exact ⟨_, _, (if_neg ascii).trans ((if_neg short).trans (if_neg middle)),
      fun _ => readChar_four (by omega)⟩

/-! ### Whole texts -/

theorem readChars_utf8Chars (read text : List Char) :
    readChars read (utf8Chars text) = text.reverse ++ read := by
  induction text generalizing read with
  | nil => rw [utf8Chars_nil, readChars, List.reverse_nil, List.nil_append]
  | cons c rest ih =>
    obtain ⟨first, more, spelt, reads⟩ := exists_readChar_eq c
    rw [utf8Chars_cons, spelt, List.cons_append, readChars, reads, ih, List.reverse_cons,
      List.append_assoc, List.singleton_append]

/-- **Reading undoes writing.** -/
theorem decodeUtf8_utf8Chars (text : List Char) :
    decodeUtf8 (utf8Chars text) = String.ofList text := by
  rw [decodeUtf8, readChars_utf8Chars, List.append_nil, List.reverse_reverse]

theorem decodeUtf8_utf8 (text : String) : decodeUtf8 (utf8 text) = text := by
  rw [utf8, decodeUtf8_utf8Chars, String.ofList_toList]

/-! ### The search for a boundary -/

/-- The last boundary at or before index `k`, by a search that looks at the first byte too and gives
up when it would have to go on in front of it. -/
def boundaryBefore? (bytes : Bytes) : Nat → Option Nat
  | 0 => if isBoundary bytes 0 then some 0 else none
  | k + 1 => if isBoundary bytes (k + 1) then some (k + 1) else boundaryBefore? bytes k

/-- **The search never gets in front of a text**, because a text begins with a first byte. -/
theorem boundaryBefore?_utf8Chars (text : List Char) (k : Nat) :
    boundaryBefore? (utf8Chars text) k = some (boundaryBefore (utf8Chars text) k) := by
  induction k with
  | zero => exact if_pos (isBoundary_utf8Chars_zero text)
  | succ k ih =>
    rw [boundaryBefore?, boundaryBefore, ih]
    split <;> rfl

/-! ### Drafts -/

namespace Draft

variable {d : Draft} {area : Bytes} {kept : List Char}

/-- The draft holds the characters `kept`, and behind them what the area held before. -/
structure Holds (d : Draft) (area : Bytes) (kept : List Char) : Prop where
  length_area : d.area.length = area.length
  message_eq : d.message = utf8Chars kept
  untouched : d.area.drop d.used = area.drop d.used

theorem holds_blank (area : Bytes) : (blank area).Holds area [] := ⟨rfl, rfl, rfl⟩

theorem used_le_addText (d : Draft) (text : String) : d.used ≤ (d.addText text).used :=
  Nat.le_add_right _ _

theorem drop_addText (d : Draft) (text : String) :
    (d.addText text).area.drop (d.addText text).used = d.area.drop (d.addText text).used := by
  unfold addText
  exact drop_append _ _ _

theorem Holds.used_eq (holds : d.Holds area kept) : d.used = (utf8Chars kept).length := by
  rw [← holds.message_eq, length_message]

theorem Holds.used_le (holds : d.Holds area kept) : d.used ≤ area.length :=
  holds.length_area ▸ d.used_le

/-- A text is cut to the room that is left, and what lies behind it stays as it was. -/
theorem Holds.addText (holds : d.Holds area kept) (text : String) :
    (d.addText text).Holds area (addFitting area.length kept text.toList) where
  length_area := by rw [length_area_addText, holds.length_area]
  message_eq := by rw [message_addText, holds.length_area, holds.message_eq, fitText_utf8Chars]
  untouched := by
    obtain ⟨more, used⟩ := Nat.exists_eq_add_of_le (d.used_le_addText text)
    rw [drop_addText, used, ← List.drop_drop, holds.untouched, List.drop_drop]

theorem Holds.foldl_addText (holds : d.Holds area kept) (texts : List String) :
    (texts.foldl Draft.addText d).Holds area
      ((texts.map String.toList).foldl (addFitting area.length) kept) := by
  induction texts generalizing d kept with
  | nil => exact holds
  | cons text rest ih => exact ih (holds.addText text)

/-- What comes of one more text in an area. -/
structure Takes (d : Draft) (area : Bytes) (text : String) : Prop where
  /-- The search for the place of the cut ends at a boundary. -/
  search : boundaryBefore? (utf8 text) (min (utf8 text).length d.room) =
    some (d.fitting (utf8 text))
  used_le_used : d.used ≤ (d.addText text).used
  used_le_length : (d.addText text).used ≤ area.length
  untouched : (d.addText text).area.drop (d.addText text).used =
    area.drop (d.addText text).used
  /-- As many characters are added as fit into the room that is left. -/
  message_eq : ∃ cut, LongestFit d.room text.toList cut ∧
    (d.addText text).message = d.message ++ utf8Chars cut

theorem Holds.takes (holds : d.Holds area kept) (text : String) : d.Takes area text where
  search := boundaryBefore?_utf8Chars text.toList _
  used_le_used := d.used_le_addText text
  used_le_length := (holds.addText text).used_le
  untouched := (holds.addText text).untouched
  message_eq := by
    refine ⟨fitChars d.room text.toList, longestFit_fitChars _ _, ?_⟩
    rw [(holds.addText text).message_eq, addFitting, utf8Chars_append, holds.message_eq, room,
      holds.length_area, holds.used_eq]

/-- What comes of texts that are added to an area, one after the other. -/
structure Gathers (area : Bytes) (texts : List String) (d : Draft) : Prop where
  takes : ∀ text, d.Takes area text
  holds : d.Holds area (keepFitting area.length (texts.map String.toList))
  whole : (utf8Chars (texts.map String.toList).flatten).length ≤ area.length →
    d.message = utf8Chars (texts.map String.toList).flatten
  reads : decodeUtf8 d.message =
    String.ofList (keepFitting area.length (texts.map String.toList))

theorem gathers_foldl_addText (area : Bytes) (texts : List String) :
    Gathers area texts (texts.foldl addText (blank area)) := by
  have holds : (texts.foldl addText (blank area)).Holds area
      (keepFitting area.length (texts.map String.toList)) := (holds_blank area).foldl_addText texts
  refine ⟨holds.takes, holds, fun fits => ?_, ?_⟩
  · rw [holds.message_eq, keepFitting_of_le fits]
  · rw [holds.message_eq, decodeUtf8_utf8Chars]

end Draft

/-! ### What is published -/

/-- What is read of a record that a script published. -/
structure Channel.Recovers (before : Channel) (script : Script 1) (r : Record) (after : Channel) :
    Prop where
  published : ∃ reports notices,
    after = (before.publish r.encode).withReports reports notices
  /-- The record is found in the ring, and its text is what was kept of what the script wrote. -/
  shows : ∃ seq f, after.Shows seq r.encode ∧ Frame.decode r.encode = .ok f ∧
    f.text = String.ofList (keepFitting (messageRoom before.geometry.slotBytes) script.pieces) ∧
    f.text.toList.Sublist script.pieces.flatten

theorem Channel.recovers_log (c : Channel) (scratch : Scratch) (now : UInt64) (h : Heading 1)
    (script : Script 1) {r : Record}
    (recorded : c.record? scratch.state now (.formatted h script) = some r) :
    c.Recovers script r (c.log scratch now (.formatted h script)).1 := by
  obtain ⟨reports, notices, bytes, logged, -⟩ := c.exists_log_eq scratch now (.formatted h script)
  have message : r.message =
      utf8Chars (keepFitting (messageRoom c.geometry.slotBytes) script.pieces) := by
    rw [eq_of_record? recorded, Entry.message_formatted]
  have fits : r.message.length ≤ messageRoom c.geometry.slotBytes := by
    rw [message]
    exact length_keepFitting_le _ _
  have whole : c.geometry.fitted r = r := Geometry.fitted_of_length_le fits
  have shows := c.shows_publish r
  have stated := c.geometry.length_fitted_le r
  rw [whole] at shows stated
  have text : (Frame.mk r r.encode).text =
      String.ofList (keepFitting (messageRoom c.geometry.slotBytes) script.pieces) := by
    rw [Frame.text, message, decodeUtf8_utf8Chars]
  rw [logged, recorded]
  refine ⟨⟨reports, notices, rfl⟩, _, ⟨r, r.encode⟩, shows, Frame.decode_encode stated, text, ?_⟩
  rw [text, String.toList_ofList]
  exact keepFitting_sublist _ _

/-- **What is written of a text is whole characters**, in an area of any size and in any pieces.
Each piece adds as many characters as fit into the room that is left, nothing behind them is
touched, and all of a text that fits is there. So what is published of a formatted message is read
as the characters that were kept, and no replacement character is among them that was not
written. -/
theorem text_is_kept :
    (∀ (area : Bytes) (texts : List String),
      Draft.Gathers area texts (texts.foldl Draft.addText (.blank area))) ∧
    ∀ (c : Channel) (scratch : Scratch) (now : UInt64) (h : Heading 1) (script : Script 1)
      (r : Record), c.record? scratch.state now (.formatted h script) = some r →
        c.Recovers script r (c.log scratch now (.formatted h script)).1 :=
  ⟨Draft.gathers_foldl_addText, fun c scratch now h script _ => c.recovers_log scratch now h script⟩

/-- Two bytes are left for the message. They hold "é", which is read as such, and neither the "€"
behind it nor any part of it. -/
theorem text_is_kept_narrow :
    let c := Channel.ofGeometry .twoSlots .claimed .trace
    let script : Script 1 := .text "é" (.logs (.solo .warn 1) [0] (.text "€" .done))
    let r : Record := ⟨5, .info, 9, [0xC3, 0xA9]⟩
    c.record? .free 5 (.formatted (.solo .info 9) script) = some r ∧
      c.Recovers script r (c.log ⟨[7], .free⟩ 5 (.formatted (.solo .info 9) script)).1 ∧
      decodeUtf8 [0xC3, 0xA9] = "é" :=
  ⟨by decide, text_is_kept.2 _ ⟨[7], .free⟩ 5 _ _ _ (by decide), decodeUtf8_utf8 "é"⟩

end LogRelay
