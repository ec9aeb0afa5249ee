/-
# What a ring retains

As long as nobody publishes at the same time, a ring that was published to `n` times holds the last
`slotCount` of these records, each complete in its slot under the stamp of its sequence, whatever
lay in the slot before; and with the consumed cursor inside the ring's window both ways of
publishing are the same. A slot keeps of an encoded record what fits, and what it keeps of an
oversized one is the encoding of the record with its message cut to the slot.

Nothing here needs the reader: the cursor that it shares with the writers is raised by both, and
only `Within` speaks of it.

Key definitions: `Geometry.kept`, `Geometry.fitted`, `Ring.Holds`, `Ring.publishBy`, `Ring.Keeps`,
`Ring.Within`.
Key theorems: `Geometry.kept_encode`, `Ring.read_of_holds`, `Ring.publishAlone_eq_publish`,
`Ring.Keeps.publish`, `Ring.Within.publish`.
-/
import LogRelay.Proofs.Codec
import LogRelay.Ring.Basic
import LogRelay.Settings

namespace LogRelay

/-! ### What a slot keeps of a record -/

theorem overlay_middle {front middle back piece : Bytes} (h : piece.length = middle.length) :
    overlay front.length piece (front ++ middle ++ back) = front ++ piece ++ back := by
  have rest : front.length + middle.length = (front ++ middle).length := List.length_append.symm
  rw [overlay, h, rest, List.drop_left, List.append_assoc front middle, List.take_left]

namespace Geometry

/-- Two slots with room for two bytes of message. -/
def twoSlots : Geometry := ⟨2, 16, by decide, by decide, by decide, by decide⟩

theorem eq_of_check {slotCount slotBytes : Nat} {g : Geometry}
    (checked : check slotCount slotBytes = .ok g) :
    g.slotCount = slotCount ∧ g.slotBytes = slotBytes := by
  unfold check at checked
  repeat split at checked
  all_goals cases checked
  exact ⟨rfl, rfl⟩

variable (g : Geometry)

/-- What a slot keeps of an encoded record: all of it, or as much as fits, with a length field that
says so. -/
def kept (encoded : Bytes) : Bytes :=
  if g.slotBytes < encoded.length then
    overlay Layout.lengthAt (bigEndian Layout.lengthSize (g.slotBytes - headerSize))
      (encoded.take g.slotBytes)
  else encoded

/-- The record that a slot keeps of a record: its message is cut to the room in the slot. -/
def fitted (r : Record) : Record := r.cut (messageRoom g.slotBytes)

theorem lengthField_inside : Layout.lengthAt + Layout.lengthSize ≤ g.slotBytes :=
  Nat.le_of_lt (Nat.lt_of_le_of_lt (by decide) g.headerSize_lt)

theorem length_kept_of_lt {encoded : Bytes} (h : g.slotBytes < encoded.length) :
    (g.kept encoded).length = g.slotBytes := by
  have taken : (encoded.take g.slotBytes).length = g.slotBytes := by
    rw [List.length_take]; omega
  rw [kept, if_pos h, length_overlay, taken]
  rw [length_bigEndian, taken]
  exact g.lengthField_inside

/-- The copies into a slot leave what is kept, and the slot's old bytes behind it. -/
theorem applyPatches_patches {bytes : Bytes} (encoded : Bytes) (h : bytes.length = g.slotBytes) :
    applyPatches bytes (g.patches encoded) =
      g.kept encoded ++ bytes.drop (g.kept encoded).length := by
  by_cases long : g.slotBytes < encoded.length
  · have whole : bytes.drop (min g.slotBytes encoded.length) = [] :=
      List.drop_eq_nil_of_le (by omega)
    rw [g.length_kept_of_lt long, kept, if_pos long, List.drop_eq_nil_of_le (Nat.le_of_eq h)]
    simp only [applyPatches, patches, if_pos long, List.foldl_cons, List.foldl_nil]
    simp only [overlay, List.take_zero, List.nil_append, Nat.zero_add, List.length_take, whole,
      List.append_nil]
  · rw [kept, if_neg long]
    simp only [applyPatches, patches, if_neg long, List.foldl_cons, List.foldl_nil]
    simp only [overlay, List.take_zero, List.nil_append, Nat.zero_add,
      List.take_of_length_le (Nat.not_lt.1 long)]

theorem length_fitted_le (r : Record) : (g.fitted r).message.length ≤ maxMessageLength := by
  have le := g.slotBytes_le
  simp only [fitted, Record.cut, messageRoom, List.length_take]
  omega

theorem length_encode_fitted_le (r : Record) : (g.fitted r).encode.length ≤ g.slotBytes := by
  have lt := g.headerSize_lt
  simp only [Record.length_encode, fitted, Record.cut, messageRoom, List.length_take]
  omega

/-- **Cutting bytes is cutting the message.** What a slot keeps of an encoding is the encoding of
the record with its message cut to the slot. -/
theorem kept_encode (r : Record) : g.kept r.encode = (g.fitted r).encode := by
  have lt := g.headerSize_lt
  by_cases long : g.slotBytes < r.encode.length
  · have cut : (r.message.take (g.slotBytes - headerSize)).length = g.slotBytes - headerSize := by
      rw [Record.length_encode] at long
      rw [List.length_take]; omega
    have front : Layout.lengthAt = (bigEndian Layout.timestampSize r.timestamp.toNat
        ++ [r.severity.rank, r.component]).length := by simp [Layout.lengthAt, Layout.componentAt,
          Layout.severityAt, Layout.timestampAt, Layout.timestampSize, Layout.componentSize,
          Layout.severitySize]
    have taken : r.encode.take g.slotBytes = header r.timestamp r.severity r.component
        r.message.length ++ r.message.take (g.slotBytes - headerSize) := by
      rw [Record.encode, List.take_append, length_header, List.take_of_length_le
        (by rw [length_header]; omega)]
    rw [kept, if_pos long, taken, header, front,
      overlay_middle (by rw [length_bigEndian, length_bigEndian]), Record.encode, header]
    simp only [fitted, Record.cut, cut, messageRoom]
  · rw [kept, if_neg long]
    rw [Record.length_encode] at long
    have whole : r.message.take (messageRoom g.slotBytes) = r.message :=
      List.take_of_length_le (by rw [messageRoom]; omega)
    rw [fitted, Record.cut, whole]

/-- Cutting twice is cutting once. -/
theorem fitted_fitted (r : Record) : g.fitted (g.fitted r) = g.fitted r := by
  simp only [fitted, Record.cut, List.take_take, Nat.min_self]

/-! ### Sequences and slots -/

theorem index_ne {s t : Nat} (lt : s < t) (near : t < s + g.slotCount) : g.index s ≠ g.index t := by
  intro same
  have mods : s % g.slotCount = t % g.slotCount := by
    rw [← g.index_eq_mod, ← g.index_eq_mod, same]
  have gap : (t - s) % g.slotCount = 0 := Nat.sub_mod_eq_zero_of_mod_eq mods.symm
  rw [Nat.mod_eq_of_lt (by omega)] at gap
  omega

/-- A slot is taken again one round later. -/
theorem index_add_slotCount (s : Nat) : g.index (s + g.slotCount) = g.index s :=
  Fin.ext (by rw [g.index_eq_mod, g.index_eq_mod, Nat.add_mod_right])

end Geometry

/-! ### Slots of a ring -/

namespace Ring

variable {g : Geometry}

/-- Sequence `seq` is complete in its slot, with what is kept of `encoded`. -/
def Holds (ring : Ring g) (seq : Nat) (encoded : Bytes) : Prop :=
  (ring.slotAt seq).stamp = writtenStamp seq ∧ g.kept encoded <+: (ring.slotAt seq).bytes

theorem slotAt_congr (ring : Ring g) {s t : Nat} (h : g.index s = g.index t) :
    ring.slotAt s = ring.slotAt t := by
  simp only [slotAt, h]

/-- A slot begins with what it keeps of the last record copied in. -/
theorem kept_prefix_copy (slot : Slot g) (encoded : Bytes) :
    g.kept encoded <+: (slot.copy encoded).bytes := by
  show g.kept encoded <+: applyPatches slot.bytes (g.patches encoded)
  rw [g.applyPatches_patches encoded slot.length_bytes]
  exact List.prefix_append _ _

theorem holds_writeSlot (ring : Ring g) (seq : Nat) (encoded : Bytes) :
    (ring.writeSlot seq encoded).Holds seq encoded := by
  simp only [Holds, writeSlot, endWrite, copyIn, slotAt_mapSlot, if_pos, Slot.stamped, true_and]
  exact kept_prefix_copy _ encoded

theorem slotAt_writeSlot_of_ne (ring : Ring g) {seq other : Nat} (encoded : Bytes)
    (h : g.index seq ≠ g.index other) :
    (ring.writeSlot seq encoded).slotAt other = ring.slotAt other := by
  simp only [writeSlot, endWrite, copyIn, beginWrite, slotAt_mapSlot, if_neg h]

theorem read_of_holds {ring : Ring g} {seq room : Nat} {r : Record} (h : ring.Holds seq r.encode)
    (enough : g.slotBytes ≤ room) : ring.read seq room = .ready (g.fitted r).encode := by
  obtain ⟨stamp, front⟩ := h
  rw [g.kept_encode] at front
  obtain ⟨behind, bytes⟩ := front
  have fits := g.length_encode_fitted_le r
  rw [Record.length_encode] at fits
  have head : (ring.slotAt seq).bytes.take headerSize =
      header r.timestamp r.severity r.component (g.fitted r).message.length ++ [] := by
    rw [← bytes, Record.encode, List.append_assoc, List.take_left' (length_header _ _ _ _),
      List.append_nil]
    rfl
  have sized : Frame.size ((ring.slotAt seq).bytes.take headerSize) (min g.slotBytes room) =
      .ok (g.fitted r).encode.length := by
    rw [head, Record.length_encode, Nat.min_eq_left enough]
    exact Frame.size_header_append _ _ _ _ (g.length_fitted_le r) fits
  simp only [read, stamp, ne_eq, not_true_eq_false, if_false, sized]
  rw [← bytes, List.take_left]

theorem read_of_stamp_ne {ring : Ring g} {seq : Nat} (room : Nat)
    (h : (ring.slotAt seq).stamp ≠ writtenStamp seq) : ring.read seq room = .overwritten := by
  simp only [read, ne_eq, h, not_false_eq_true, if_true]

/-! ### Publishing -/

/-- Publishes an encoded record the way that writers of a mode do. -/
def publishBy (mode : WriterMode) (ring : Ring g) (encoded : Bytes) : Nat × Ring g :=
  match mode with
  | .claimed => ring.publish encoded
  | .single => ring.publishAlone encoded

/-- No record is claimed that is not published, and the reader's cursor is inside the window of the
records that the ring has room for. -/
structure Within (ring : Ring g) : Prop where
  claimed_eq : ring.claimed = ring.published
  consumed_le : ring.consumed ≤ ring.published
  published_le : ring.published ≤ ring.consumed + g.slotCount

theorem publish_of_full {ring : Ring g} (full : ring.IsFullFor ring.claimed) (encoded : Bytes) :
    ring.publish encoded = (ring.claimed, (((ring.claim.giveUp ring.claimed).countOverflow.writeSlot
      ring.claimed encoded).reveal ring.claimed)) := by
  have claim : ring.claim.IsFullFor ring.claimed := full
  simp only [publish, if_pos claim]

theorem publish_of_room {ring : Ring g} (room : ¬ ring.IsFullFor ring.claimed) (encoded : Bytes) :
    ring.publish encoded =
      (ring.claimed, (ring.claim.writeSlot ring.claimed encoded).reveal ring.claimed) := by
  have claim : ¬ ring.claim.IsFullFor ring.claimed := room
  simp only [publish, if_neg claim]

@[simp] theorem published_publish (ring : Ring g) (encoded : Bytes) :
    (ring.publish encoded).2.published = ring.claimed + 1 := rfl

@[simp] theorem claimed_publish (ring : Ring g) (encoded : Bytes) :
    (ring.publish encoded).2.claimed = ring.claimed + 1 := by
  by_cases full : ring.IsFullFor ring.claimed
  · rw [publish_of_full full]; rfl
  · rw [publish_of_room full]; rfl

/-- Publishing moves the reader's cursor exactly as far as the new record's slot demands. -/
@[simp] theorem consumed_publish (ring : Ring g) (encoded : Bytes) :
    (ring.publish encoded).2.consumed = max ring.consumed (ring.claimed + 1 - g.slotCount) := by
  by_cases full : ring.IsFullFor ring.claimed
  · rw [publish_of_full full]; rfl
  · have pos := g.slotCount_pos
    rw [publish_of_room full, Nat.max_eq_left (by rw [IsFullFor] at full; omega)]
    rfl

/-- A loss is counted exactly if the new record's slot holds an unread one. -/
@[simp] theorem overflowed_publish (ring : Ring g) (encoded : Bytes) :
    (ring.publish encoded).2.overflowed =
      ring.overflowed + if g.slotCount ≤ ring.claimed - ring.consumed then 1 else 0 := by
  by_cases full : g.slotCount ≤ ring.claimed - ring.consumed
  · rw [publish_of_full full, if_pos full]; rfl
  · rw [publish_of_room full, if_neg full]; rfl

theorem slotAt_publish (ring : Ring g) (encoded : Bytes) (seq : Nat) :
    (ring.publish encoded).2.slotAt seq = (ring.writeSlot ring.claimed encoded).slotAt seq := by
  by_cases full : ring.IsFullFor ring.claimed
  · rw [publish_of_full full]; rfl
  · rw [publish_of_room full]; rfl

theorem holds_publish (ring : Ring g) (encoded : Bytes) {seq : Nat} {other : Bytes} :
    (ring.publish encoded).2.Holds seq other ↔
      (ring.writeSlot ring.claimed encoded).Holds seq other := by
  rw [Holds, Holds, slotAt_publish]

/-- For writers that do not overlap, both ways of publishing are the same. -/
theorem publishAlone_eq_publish {ring : Ring g} (claimed : ring.claimed = ring.published)
    (window : ring.published ≤ ring.consumed + g.slotCount) (encoded : Bytes) :
    ring.publishAlone encoded = ring.publish encoded := by
  have pos := g.slotCount_pos
  obtain ⟨slots, published, consumed, seq, overflowed⟩ := ring
  dsimp only at claimed window
  subst claimed
  by_cases full : (⟨slots, seq, consumed, seq, overflowed⟩ : Ring g).IsFullFor seq
  · have oldest : consumed + 1 = max consumed (seq + 1 - g.slotCount) := by
      dsimp only [IsFullFor] at full; omega
    rw [publish_of_full full]
    simp only [publishAlone, if_pos full, giveUp, giveUpOldest, Cursor.raise, Cursor.step, oldest]
    rfl
  · rw [publish_of_room full]
    simp only [publishAlone, if_neg full]
    rfl

theorem publishBy_eq_publish {ring : Ring g} (claimed : ring.claimed = ring.published)
    (window : ring.published ≤ ring.consumed + g.slotCount) (mode : WriterMode) (encoded : Bytes) :
    ring.publishBy mode encoded = ring.publish encoded := by
  cases mode with
  | claimed => rfl
  | single => exact publishAlone_eq_publish claimed window encoded

theorem Within.publishBy_eq {ring : Ring g} (h : ring.Within) (mode : WriterMode)
    (encoded : Bytes) : ring.publishBy mode encoded = ring.publish encoded :=
  publishBy_eq_publish h.claimed_eq h.published_le mode encoded

theorem within_empty (g : Geometry) : (empty g).Within :=
  ⟨rfl, Nat.le_refl _, Nat.zero_le _⟩

theorem Within.publish {ring : Ring g} (h : ring.Within) (encoded : Bytes) :
    (ring.publish encoded).2.Within := by
  obtain ⟨claimed, lower, upper⟩ := h
  have pos := g.slotCount_pos
  refine ⟨?_, ?_, ?_⟩
  · rw [claimed_publish, published_publish]
  · rw [consumed_publish, published_publish]; omega
  · rw [consumed_publish, published_publish]; omega

theorem Within.commit {ring : Ring g} (h : ring.Within) {next : Nat}
    (le : next ≤ ring.published) : (ring.commit next).Within := by
  obtain ⟨claimed, lower, upper⟩ := h
  refine ⟨claimed, ?_, ?_⟩
  · simp only [Ring.commit, Cursor.raise]; omega
  · simp only [Ring.commit, Cursor.raise]; omega

/-! ### The published records -/

/-- The ring was published to with the records of `log`, one after the other, and still holds those
that no later record took the slot of. -/
structure Keeps (ring : Ring g) (log : List Bytes) : Prop where
  claimed : ring.claimed = log.length
  published : ring.published = log.length
  holds : ∀ s (h : s < log.length), log.length ≤ s + g.slotCount → ring.Holds s log[s]

theorem keeps_empty (g : Geometry) : (empty g).Keeps [] where
  claimed := rfl
  published := rfl
  holds s h := absurd h (Nat.not_lt_zero s)

/-- A published record is held, and so are the ones before it, the oldest excepted. -/
theorem Keeps.publish {ring : Ring g} {log : List Bytes} (h : ring.Keeps log) (encoded : Bytes) :
    (ring.publish encoded).2.Keeps (log ++ [encoded]) := by
  have grown : (log ++ [encoded]).length = log.length + 1 := List.length_append
  refine ⟨?_, ?_, ?_⟩
  · rw [claimed_publish, h.claimed, grown]
  · rw [published_publish, h.claimed, grown]
  · intro s lt near
    rw [grown] at lt near
    by_cases last : s = log.length
    · subst last
      have written := holds_writeSlot ring ring.claimed encoded
      rw [holds_publish, List.getElem_append_right (Nat.le_refl _)]
      simpa only [h.claimed, Nat.sub_self, List.getElem_cons_zero] using written
    · have older : s < log.length := by omega
      rw [holds_publish, h.claimed, Holds, slotAt_writeSlot_of_ne ring encoded
        (g.index_ne older (by omega)).symm, List.getElem_append_left older]
      exact h.holds s older (by omega)

theorem Keeps.commit {ring : Ring g} {log : List Bytes} (h : ring.Keeps log) (next : Nat) :
    (ring.commit next).Keeps log := ⟨h.claimed, h.published, h.holds⟩

end Ring

end LogRelay
