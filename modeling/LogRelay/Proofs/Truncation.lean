/-
# Oversized records, however they are written

A record that is longer than a slot is cut in one of three places: where it is stored in a buffer,
where a ring copies it into a slot, or where a log call takes its message. A ring sees of what it is
given only what a slot keeps of it (`Ring.publishBy_eq_of_kept`), and a slot keeps the same of a
record and of any cut of it that still fills the slot (`Geometry.kept_encode_cut`). So all three
leave the same ring behind, down to the old bytes of a slot behind a short record, and what is read
is the encoding of the record with its message cut to the slot. Nothing of a buffer that the record
was composed in can be seen.

Key definition: `Channel.Shows`.
Key theorems: `Geometry.kept_encode_cut`, `Ring.publishBy_eq_of_kept`, `Ring.holds_publishBy`,
`Thread.channel_logBytes`, `Thread.same_however_written`.
-/
import LogRelay.Proofs.Grammar
import LogRelay.Proofs.Writing

namespace LogRelay

/-! ### What a slot keeps decides -/

namespace Geometry

variable (g : Geometry)

/-- A record that is cut, but not below what the slot has room for, is kept as if it was not. -/
theorem fitted_cut {r : Record} {length : Nat}
    (enough : min (messageRoom g.slotBytes) r.message.length ≤ length) :
    g.fitted (r.cut length) = g.fitted r := by
  unfold fitted Record.cut
  by_cases roomy : messageRoom g.slotBytes ≤ length
  · rw [List.take_take, Nat.min_eq_left roomy]
  · rw [List.take_of_length_le (by omega : r.message.length ≤ length)]

theorem kept_encode_cut {r : Record} {length : Nat}
    (enough : min (messageRoom g.slotBytes) r.message.length ≤ length) :
    g.kept (r.cut length).encode = g.kept r.encode := by
  rw [kept_encode, kept_encode, fitted_cut g enough]

/-- A buffer as large as a slot, or as the record, is large enough to lose nothing in it. -/
theorem kept_encode_stored {r : Record} {capacity : Nat}
    (enough : min g.slotBytes r.encode.length ≤ capacity) :
    g.kept (r.cut (r.storedLength capacity)).encode = g.kept r.encode := by
  have most := g.slotBytes_le
  apply kept_encode_cut
  rw [Record.length_encode] at enough
  unfold Record.storedLength messageRoom
  omega

end Geometry

theorem Slot.copy_eq_of_kept {g : Geometry} (slot : Slot g) {encoded other : Bytes}
    (same : g.kept encoded = g.kept other) : slot.copy encoded = slot.copy other := by
  simp only [copy, g.applyPatches_patches _ slot.length_bytes, same]

namespace Ring

variable {g : Geometry}

theorem writeSlot_eq_of_kept (ring : Ring g) (seq : Nat) {encoded other : Bytes}
    (same : g.kept encoded = g.kept other) :
    ring.writeSlot seq encoded = ring.writeSlot seq other := by
  simp only [writeSlot, copyIn, Slot.copy_eq_of_kept _ same]

/-- **A ring sees of an encoded record only what a slot keeps of it.** -/
theorem publishBy_eq_of_kept (ring : Ring g) (mode : WriterMode) {encoded other : Bytes}
    (same : g.kept encoded = g.kept other) :
    ring.publishBy mode encoded = ring.publishBy mode other := by
  cases mode with
  | claimed => simp only [publishBy, publish, writeSlot_eq_of_kept _ _ same]
  | single => simp only [publishBy, publishAlone, writeSlot_eq_of_kept _ _ same]

theorem holds_publishBy (ring : Ring g) (mode : WriterMode) (encoded : Bytes) :
    (ring.publishBy mode encoded).2.Holds (ring.publishBy mode encoded).1 encoded := by
  cases mode with
  | claimed => exact (ring.holds_publish encoded).2 (holds_writeSlot _ _ _)
  | single => exact holds_writeSlot _ _ _

theorem lt_published_publishBy (ring : Ring g) (mode : WriterMode) (encoded : Bytes) :
    (ring.publishBy mode encoded).1 < (ring.publishBy mode encoded).2.published := by
  cases mode with
  | claimed => exact Nat.lt_succ_self _
  | single =>
    unfold publishBy publishAlone
    dsimp only
    split <;> exact Nat.lt_succ_self _

end Ring

/-! ### Channels -/

namespace Channel

/-- Sequence `seq` is published and is read as `bytes`, into any buffer as large as a slot. -/
def Shows (c : Channel) (seq : Nat) (bytes : Bytes) : Prop :=
  seq < c.ring.published ∧
    ∀ room, c.geometry.slotBytes ≤ room → c.ring.read seq room = .ready bytes

theorem publish_eq (c : Channel) (encoded : Bytes) :
    c.publish encoded = { c with ring := (c.ring.publishBy c.mode encoded).2 } := by
  unfold publish
  cases c.mode <;> rfl

theorem publish_eq_of_kept (c : Channel) {encoded other : Bytes}
    (same : c.geometry.kept encoded = c.geometry.kept other) :
    c.publish encoded = c.publish other := by
  rw [publish_eq, publish_eq, c.ring.publishBy_eq_of_kept c.mode same]

theorem shows_publish (c : Channel) (r : Record) :
    (c.publish r.encode).Shows (c.ring.publishBy c.mode r.encode).1
      (c.geometry.fitted r).encode := by
  rw [publish_eq]
  exact ⟨c.ring.lt_published_publishBy c.mode r.encode, fun room enough =>
    Ring.read_of_holds (c.ring.holds_publishBy c.mode r.encode) enough⟩

/-- A record may be stored in any buffer that is large enough, with whatever it held before, and be
published from there. -/
theorem publish_store (c : Channel) (r : Record) {buffer : Bytes}
    (enough : min c.geometry.slotBytes r.encode.length ≤ buffer.length) :
    ∃ count after, r.store buffer = some (count, after) ∧
      c.publish (after.take count) = c.publish r.encode := by
  have lt := c.geometry.headerSize_lt
  have size := r.length_encode
  refine ⟨_, _, r.store_eq (by omega), ?_⟩
  rw [← r.length_encode_stored, List.take_left]
  exact c.publish_eq_of_kept (c.geometry.kept_encode_stored enough)

end Channel

/-! ### Threads -/

namespace Thread

variable {n : Nat}

theorem get_mapChannel (t : Thread n) (i : Fin n) (f : Channel → Channel) :
    (t.mapChannel i f).channels.get i = f (t.channels.get i) :=
  Vector.getElem_set_self i.isLt

theorem channel_logBytes {t : Thread n} {h : Heading n} (now : UInt64) (message : Bytes)
    (free : t.scratch.state = .free)
    (accepts : (t.channels.get h.channel).accepts h.severity = true) :
    let c := t.channels.get h.channel
    (t.logBytes now h message).channels.get h.channel =
      c.publish (c.geometry.fitted ⟨now, h.severity, h.component, message⟩).encode := by
  obtain ⟨bytes, composed⟩ : ∃ bytes, t.logBytes now h message = _ :=
    exists_compose_eq free accepts rfl rfl
  rw [composed, get_mapChannel, Draft.message_addBytes_blank, length_area_grown]
  rfl

/-- **Whichever way a record is written, the same is read.** It may be stored in a buffer as large
as a slot, or in full, or be logged by a thread whose buffer holds anything: the channel is the same
afterwards, and what is read is the encoding of the record with its message cut to the slot. -/
theorem same_however_written (t : Thread n) (now : UInt64) (h : Heading n) (message : Bytes)
    (free : t.scratch.state = .free)
    (accepts : (t.channels.get h.channel).accepts h.severity = true) :
    let c := t.channels.get h.channel
    let r : Record := ⟨now, h.severity, h.component, message⟩
    (∀ buffer : Bytes, min c.geometry.slotBytes r.encode.length ≤ buffer.length →
      ∃ count after, r.store buffer = some (count, after) ∧
        c.publish (after.take count) = c.publish r.encode) ∧
      (t.log now (.bytes h message)).channels.get h.channel = c.publish r.encode ∧
      (c.publish r.encode).Shows (c.ring.publishBy c.mode r.encode).1
        (r.cut (c.geometry.slotBytes - headerSize)).encode := by
  intro c r
  refine ⟨fun buffer enough => c.publish_store r enough, ?_, c.shows_publish r⟩
  have logged := channel_logBytes now message free accepts
  have same : c.publish (c.geometry.fitted r).encode = c.publish r.encode :=
    c.publish_eq_of_kept (c.geometry.kept_encode_cut (Nat.min_le_left _ _))
  exact logged.trans same

/-- A message of three bytes for a slot that has room for two, from a buffer that larger slots left
behind. -/
theorem same_however_written_dirty :
    let t := solo ⟨List.replicate 20 7, .free⟩ (.ofGeometry .twoSlots .single .trace)
    let h : Heading 1 := .solo .info 9
    let c := t.channels.get h.channel
    let r : Record := ⟨5, .info, 9, [1, 2, 3]⟩
    t.scratch.state = .free ∧ c.accepts h.severity = true ∧
      (∀ buffer : Bytes, min c.geometry.slotBytes r.encode.length ≤ buffer.length →
        ∃ count after, r.store buffer = some (count, after) ∧
          c.publish (after.take count) = c.publish r.encode) ∧
      (t.log 5 (.bytes h [1, 2, 3])).channels.get h.channel = c.publish r.encode ∧
      (c.publish r.encode).Shows (c.ring.publishBy c.mode r.encode).1
        (r.cut (c.geometry.slotBytes - headerSize)).encode :=
  ⟨rfl, rfl, same_however_written _ 5 _ [1, 2, 3] rfl rfl⟩

example :
    ((solo ⟨List.replicate 20 7, .free⟩ (.ofGeometry .twoSlots .single .trace)).log 5
      (.bytes (.solo .info 9) [1, 2, 3])).channel.ring.read 0 16 =
        .ready (Record.mk 5 .info 9 [1, 2]).encode := by decide

end Thread

end LogRelay
