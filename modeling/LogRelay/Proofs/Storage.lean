/-
# The storage of a ring

All slots of a ring lie in one block of bytes, and records are copied into it and out of it by
address. Here every such copy is written down with the range that it reads and the range that it
writes. Put back into the block these copies come to what the ring does with its slots
(`Ring.storage_writeSlot`, `Ring.read_eq_fetch`), and each of them lies inside the slot of its
sequence number and inside the buffer it goes to. That needs nothing of what the block holds: the
length in a header is checked before anything is copied for it, and a writer may change the slot
between the copy of the header and that of the message.

The numbers that addresses are made of fit into a word, and the lengths that are stored into a
signed number of 32 bits, because the numbers that a geometry is made of were checked. Settings are
checked for the same numbers, with the same verdict (`Settings.check_eq_error_iff`). Neither check
knows that a block of memory has to be smaller than a word could tell, so there are settings that
pass and whose ring panics when it is made (`passes_and_panics`).

Key definitions: `Ring.storage`, `Geometry.slotStart`, `Geometry.writes`, `Transfer`,
`Geometry.fetch`, `States`, `Settings.Accommodates`.
Key theorems: `Ring.exists_storage_eq`, `Ring.storage_writeSlot`, `Ring.read_eq_fetch`,
`Geometry.addresses`, `Ring.writesInside`, `Geometry.readsInside`, `Settings.accommodates`.
-/
import LogRelay.Proofs.Nesting
import LogRelay.Relay

namespace LogRelay

/-! ### Two checks of the same numbers -/

/-- How settings name what is wrong with the numbers of a ring. -/
def GeometryFault.inSettings : GeometryFault → SettingsFault
  | slotCount _ => .slotCount
  | slotBytes given => if given ≤ headerSize then .slotTooSmall else .slotTooLarge
  | storage => .storage

/-- Whether a fault lies in the numbers of the ring. -/
def SettingsFault.isOfRing : SettingsFault → Bool
  | slotCount | slotTooSmall | slotTooLarge | storage => true
  | idleWait | threadName => false

namespace Settings

/-- What settings are checked for besides the numbers of the ring. -/
def checkRest (s : Settings) : Except SettingsFault Unit :=
  if s.idleWait.toNanos = 0 then .error .idleWait
  else if '\x00' ∈ s.threadName.toList then .error .threadName
  else .ok ()

/-- Settings are checked as the ring is, and then for the rest. -/
theorem check_eq (s : Settings) : s.check =
    match Geometry.check s.slotCount s.slotBytes with
    | .error fault => .error fault.inSettings
    | .ok _ => s.checkRest := by
  unfold check Geometry.check
  by_cases count : PowerOfTwo s.slotCount
  · rw [if_neg (not_not_intro count), dif_pos count]
    by_cases small : s.slotBytes ≤ headerSize
    · have outside : ¬ (headerSize < s.slotBytes ∧ s.slotBytes ≤ maxMessageLength) := by omega
      rw [if_pos small, dif_neg outside]
      simp only [GeometryFault.inSettings, if_pos small]
    rw [if_neg small]
    by_cases large : maxMessageLength < s.slotBytes
    · have outside : ¬ (headerSize < s.slotBytes ∧ s.slotBytes ≤ maxMessageLength) := by omega
      rw [if_pos large, dif_neg outside]
      simp only [GeometryFault.inSettings, if_neg small]
    have inside : headerSize < s.slotBytes ∧ s.slotBytes ≤ maxMessageLength := by omega
    rw [if_neg large, dif_pos inside]
    by_cases many : wordMax < s.slotCount * s.slotBytes
    · rw [if_pos many, dif_neg (Nat.not_le.2 many)]
      rfl
    · rw [if_neg many, dif_pos (Nat.not_lt.1 many)]
      rfl
  · rw [if_pos count, dif_neg count]
    rfl

theorem isOfRing_of_checkRest {s : Settings} {fault : SettingsFault}
    (failed : s.checkRest = .error fault) : fault.isOfRing = false := by
  unfold checkRest at failed
  split at failed
  · cases failed
    rfl
  split at failed
  · cases failed
    rfl
  · cases failed

/-- **Both checks refuse the same numbers**, and for the same reason. -/
theorem check_eq_error_iff (s : Settings) {fault : SettingsFault} (ofRing : fault.isOfRing) :
    s.check = .error fault ↔
      ∃ e, Geometry.check s.slotCount s.slotBytes = .error e ∧ e.inSettings = fault := by
  rw [check_eq]
  cases Geometry.check s.slotCount s.slotBytes with
  | error e => simp
  | ok g =>
    constructor
    · intro failed
      rw [isOfRing_of_checkRest failed] at ofRing
      cases ofRing
    · rintro ⟨e, refused, -⟩
      cases refused

end Settings

/-! ### Addresses -/

theorem toNat_ofNat_of_le {n : Nat} (le : n ≤ wordMax) : (UInt64.ofNat n).toNat = n :=
  UInt64.toNat_ofNat_of_lt (Nat.lt_succ_of_le le)

theorem toNat_mul_of_le {x y : UInt64} (le : x.toNat * y.toNat ≤ wordMax) :
    (x * y).toNat = x.toNat * y.toNat := by
  rw [UInt64.toNat_mul]
  exact Nat.mod_eq_of_lt (Nat.lt_succ_of_le le)

namespace Geometry

variable (g : Geometry)

/-- Where the slot of a sequence number begins. -/
def slotStart (seq : Nat) : Nat := (g.index seq).val * g.slotBytes

theorem slotStart_add_le (seq : Nat) : g.slotStart seq + g.slotBytes ≤ g.storageBytes := by
  calc g.slotStart seq + g.slotBytes = ((g.index seq).val + 1) * g.slotBytes :=
        (Nat.succ_mul _ _).symm
    _ ≤ g.storageBytes := Nat.mul_le_mul_right _ (g.index seq).isLt

/-- The index of a slot, as a word. -/
def wordIndex (q : UInt64) : UInt64 := q &&& UInt64.ofNat g.mask

/-- Words that address the slot of the sequence number `q`. None of the numbers is too large for
one. -/
structure Addresses (q : UInt64) : Prop where
  index_eq : (g.wordIndex q).toNat = (g.index q.toNat).val
  index_eq_mod : (g.wordIndex q).toNat = q.toNat % g.slotCount
  index_lt : (g.wordIndex q).toNat < g.slotCount
  storage_eq : (UInt64.ofNat g.slotCount * UInt64.ofNat g.slotBytes).toNat = g.storageBytes
  start_eq : (g.wordIndex q * UInt64.ofNat g.slotBytes).toNat = g.slotStart q.toNat
  inside : g.slotStart q.toNat + g.slotBytes ≤ g.storageBytes
  storage_le : g.storageBytes ≤ wordMax

/-- **Slots are addressed by words.** -/
theorem addresses (q : UInt64) : g.Addresses q := by
  have storage : g.storageBytes ≤ wordMax := g.storage_le
  have bytes : g.slotBytes ≤ wordMax := Nat.le_trans g.slotBytes_le (by decide)
  have count : g.slotCount ≤ wordMax :=
    Nat.le_trans (Nat.le_mul_of_pos_right _ (Nat.lt_of_le_of_lt (Nat.zero_le _) g.headerSize_lt))
      storage
  have mask : (UInt64.ofNat g.mask).toNat = g.mask :=
    toNat_ofNat_of_le (Nat.le_trans (Nat.sub_le _ _) count)
  have index : (g.wordIndex q).toNat = (g.index q.toNat).val := by
    rw [wordIndex, UInt64.toNat_and, mask]
    rfl
  have inside := g.slotStart_add_le q.toNat
  refine ⟨index, index.trans (g.index_eq_mod _), index ▸ (g.index _).isLt, ?_, ?_, inside, storage⟩
  · rw [toNat_mul_of_le, toNat_ofNat_of_le count, toNat_ofNat_of_le bytes, storageBytes]
    rwa [toNat_ofNat_of_le count, toNat_ofNat_of_le bytes]
  · rw [toNat_mul_of_le, toNat_ofNat_of_le bytes, index, slotStart]
    rw [toNat_ofNat_of_le bytes, index]
    exact Nat.le_trans (Nat.le_trans (Nat.le_add_right _ _) inside) storage

end Geometry

/-! ### Slots in one block -/

namespace Ring

variable {g : Geometry}

/-- The bytes of all slots, one after the other. -/
def storage (ring : Ring g) : Bytes := ring.slots.toList.flatMap Slot.bytes

theorem length_flatMap_bytes (slots : List (Slot g)) :
    (slots.flatMap Slot.bytes).length = slots.length * g.slotBytes := by
  induction slots with
  | nil => exact (Nat.zero_mul _).symm
  | cons slot rest ih =>
    rw [List.flatMap_cons, List.length_append, ih, slot.length_bytes, List.length_cons,
      Nat.succ_mul, Nat.add_comm]

theorem length_storage (ring : Ring g) : ring.storage.length = g.storageBytes := by
  rw [storage, length_flatMap_bytes, Vector.length_toList, Geometry.storageBytes]

/-- **A slot lies in the block where its address says**, and to change it changes nothing in front
of it or behind it. -/
theorem exists_storage_eq (ring : Ring g) (seq : Nat) :
    ∃ front back, front.length = g.slotStart seq ∧
      ring.storage = front ++ (ring.slotAt seq).bytes ++ back ∧
      ∀ f, (ring.mapSlot seq f).storage = front ++ (f (ring.slotAt seq)).bytes ++ back := by
  have here : (g.index seq).val < ring.slots.toList.length := by
    rw [Vector.length_toList]
    exact (g.index seq).isLt
  have slot : ring.slots.toList[(g.index seq).val] = ring.slotAt seq := rfl
  refine ⟨(ring.slots.toList.take (g.index seq)).flatMap Slot.bytes,
    (ring.slots.toList.drop ((g.index seq).val + 1)).flatMap Slot.bytes, ?_, ?_, fun f => ?_⟩
  · rw [length_flatMap_bytes, List.length_take, Nat.min_eq_left (Nat.le_of_lt here),
      Geometry.slotStart]
  · rw [storage, ← slot, List.append_assoc, ← List.flatMap_cons, List.getElem_cons_drop,
      ← List.flatMap_append, List.take_append_drop]
  · rw [storage, mapSlot, Vector.toList_set, List.set_eq_take_append_cons_drop, if_pos here,
      List.flatMap_append, List.flatMap_cons, List.append_assoc]

end Ring

/-! ### Copies into the block -/

theorem overlay_inside {offset : Nat} {front middle back piece : Bytes}
    (inside : offset + piece.length ≤ middle.length) :
    overlay (front.length + offset) piece (front ++ middle ++ back) =
      front ++ overlay offset piece middle ++ back := by
  rw [overlay, overlay, List.append_assoc front middle, List.take_length_add_append,
    List.take_append_of_le_length (by omega), Nat.add_assoc, List.drop_length_add_append,
    List.drop_append_of_le_length inside]
  simp only [List.append_assoc]

/-- A copy into something that begins at byte `start`. -/
def Patch.shift (p : Patch) (start : Nat) : Patch := { p with offset := start + p.offset }

theorem applyPatches_shift {front middle back : Bytes} {patches : List Patch}
    (inside : ∀ p ∈ patches, p.offset + p.bytes.length ≤ middle.length) :
    applyPatches (front ++ middle ++ back) (patches.map (·.shift front.length)) =
      front ++ applyPatches middle patches ++ back := by
  induction patches generalizing middle with
  | nil => rfl
  | cons p rest ih =>
    obtain ⟨here, others⟩ := List.forall_mem_cons.1 inside
    have step : applyPatches (front ++ middle ++ back) ((p :: rest).map (·.shift front.length)) =
        applyPatches (overlay (front.length + p.offset) p.bytes (front ++ middle ++ back))
          (rest.map (·.shift front.length)) := rfl
    rw [step, overlay_inside here, ih (by rwa [length_overlay here])]
    rfl

/-- The copies that write an encoded record, with their places in the block. -/
def Geometry.writes (g : Geometry) (seq : Nat) (encoded : Bytes) : List Patch :=
  (g.patches encoded).map (·.shift (g.slotStart seq))

/-- The bytes state the length of a message, which a header has room for. -/
structure States (bytes : Bytes) (length : Nat) : Prop where
  le : length ≤ maxMessageLength
  declared : Frame.declaredLength bytes = length

namespace Ring

variable {g : Geometry}

theorem storage_stamped (ring : Ring g) (seq : Nat) (stamp : UInt64) :
    (ring.mapSlot seq (·.stamped stamp)).storage = ring.storage := by
  obtain ⟨front, back, -, whole, changed⟩ := ring.exists_storage_eq seq
  rw [changed, whole]
  rfl

theorem storage_copyIn (ring : Ring g) (seq : Nat) (encoded : Bytes) :
    (ring.copyIn seq encoded).storage = applyPatches ring.storage (g.writes seq encoded) := by
  obtain ⟨front, back, start, whole, changed⟩ := ring.exists_storage_eq seq
  have inside := g.patches_inside encoded
  rw [← (ring.slotAt seq).length_bytes] at inside
  rw [copyIn, changed, whole, Geometry.writes, ← start, applyPatches_shift inside]
  rfl

/-- **Writing a record is copying it to the address of its slot.** -/
theorem storage_writeSlot (ring : Ring g) (seq : Nat) (encoded : Bytes) :
    (ring.writeSlot seq encoded).storage = applyPatches ring.storage (g.writes seq encoded) := by
  rw [writeSlot, endWrite, storage_stamped, storage_copyIn, beginWrite, storage_stamped]

theorem states_writeSlot (ring : Ring g) (seq : Nat) {encoded : Bytes}
    (long : g.slotBytes < encoded.length) :
    States ((ring.writeSlot seq encoded).slotAt seq).bytes (g.slotBytes - headerSize) := by
  have le := g.slotBytes_le
  have fits : g.slotBytes - headerSize ≤ maxMessageLength := by omega
  refine ⟨fits, ?_⟩
  obtain ⟨-, behind, kept⟩ := ring.holds_writeSlot seq encoded
  have place : ((encoded.take g.slotBytes).take Layout.lengthAt).length = Layout.lengthAt := by
    have field := g.lengthField_inside
    rw [List.length_take, List.length_take]
    omega
  rw [← kept, Geometry.kept, if_pos long, overlay, List.append_assoc (_ ++ _)]
  exact Frame.declaredLength_bigEndian place fits _

/-- What is written for a record. -/
structure WritesInside (ring : Ring g) (seq : Nat) (encoded : Bytes) : Prop where
  storage_eq :
    (ring.writeSlot seq encoded).storage = applyPatches ring.storage (g.writes seq encoded)
  /-- Every copy goes to the slot and ends there. -/
  inside : ∀ p ∈ g.writes seq encoded,
    g.slotStart seq ≤ p.offset ∧ p.offset + p.bytes.length ≤ g.slotStart seq + g.slotBytes
  states : g.slotBytes < encoded.length →
    States ((ring.writeSlot seq encoded).slotAt seq).bytes (g.slotBytes - headerSize)

theorem writesInside (ring : Ring g) (seq : Nat) (encoded : Bytes) :
    ring.WritesInside seq encoded where
  storage_eq := ring.storage_writeSlot seq encoded
  inside := by
    unfold Geometry.writes
    rw [List.forall_mem_map]
    intro p member
    have fits := g.patches_inside encoded p member
    simp only [Patch.shift]
    omega
  states := ring.states_writeSlot seq

/-- Of a record of seventeen bytes the second of two slots takes sixteen, and its length field says
that two bytes of the message are left. -/
example : Geometry.twoSlots.writes 3 (List.replicate 17 7) =
    [⟨16, List.replicate 16 7⟩, ⟨26, [0, 0, 0, 2]⟩] := by decide

end Ring

/-! ### Copies out of the block -/

/-- A copy of `length` bytes of the block to a place in a buffer. -/
structure Transfer where
  source : Nat
  target : Nat
  length : Nat
  deriving DecidableEq, Repr

/-- The buffer after a copy out of a block. -/
def Transfer.run (t : Transfer) (block buffer : Bytes) : Bytes :=
  overlay t.target ((block.drop t.source).take t.length) buffer

/-- What reading a slot comes to. -/
structure Fetch where
  copies : List Transfer
  buffer : Bytes
  /-- The size of the record that was copied. -/
  total : Except FrameError Nat

/-- What a fetch gives a reader. -/
def Fetch.reading (f : Fetch) : Ring.Reading :=
  match f.total with
  | .error e => .corrupt e
  | .ok total => .ready (f.buffer.take total)

namespace Geometry

variable (g : Geometry)

/-- The copy of the header in the slot of a sequence number. -/
def headTransfer (seq : Nat) : Transfer := ⟨g.slotStart seq, 0, headerSize⟩

/-- The copy of the message behind it, if the record has `total` bytes. -/
def bodyTransfer (seq total : Nat) : Transfer :=
  ⟨g.slotStart seq + headerSize, headerSize, total - headerSize⟩

/-- Reads the slot of a sequence number into a buffer: its header from the block as it is `early`,
and what the header says from the block as it is `late`. -/
def fetch (seq : Nat) (early late buffer : Bytes) : Fetch :=
  let begun := (g.headTransfer seq).run early buffer
  match Frame.size (begun.take headerSize) (min g.slotBytes buffer.length) with
  | .error e => ⟨[g.headTransfer seq], begun, .error e⟩
  | .ok total =>
    ⟨[g.headTransfer seq, g.bodyTransfer seq total], (g.bodyTransfer seq total).run late begun,
      .ok total⟩

/-- A copy reads from the slot of a sequence number, and writes into a buffer of so many bytes. -/
structure Confines (seq room : Nat) (t : Transfer) : Prop where
  source_le : g.slotStart seq ≤ t.source
  source_add_le : t.source + t.length ≤ g.slotStart seq + g.slotBytes
  target_add_le : t.target + t.length ≤ room

theorem Confines.length_run {g : Geometry} {seq : Nat} {t : Transfer} {buffer : Bytes}
    (confines : g.Confines seq buffer.length t) (block : Bytes) :
    (t.run block buffer).length = buffer.length := by
  have le := confines.target_add_le
  rw [Transfer.run, length_overlay]
  rw [List.length_take]
  omega

theorem confines_head (seq : Nat) {room : Nat} (enough : g.slotBytes ≤ room) :
    g.Confines seq room (g.headTransfer seq) := by
  have lt := g.headerSize_lt
  unfold headTransfer
  exact ⟨Nat.le_refl _, by dsimp only; omega, by dsimp only; omega⟩

/-- A message is copied only after its header was accepted. -/
theorem confines_body (seq : Nat) {room total : Nat} (least : headerSize ≤ total)
    (most : total ≤ min g.slotBytes room) : g.Confines seq room (g.bodyTransfer seq total) := by
  unfold bodyTransfer
  exact ⟨Nat.le_add_right _ _, by dsimp only; omega, by dsimp only; omega⟩

/-- What is read of a slot, whatever stands in the block and whoever writes into it meanwhile. -/
structure ReadsInside (seq : Nat) (early late buffer : Bytes) : Prop where
  confines : ∀ t ∈ (g.fetch seq early late buffer).copies, g.Confines seq buffer.length t
  /-- The message is what is left of the record behind its header. -/
  total : ∀ total, (g.fetch seq early late buffer).total = .ok total →
    headerSize ≤ total ∧ total ≤ g.slotBytes
  length_buffer : (g.fetch seq early late buffer).buffer.length = buffer.length

/-- **Reading stays inside the slot and inside the buffer.** -/
theorem readsInside {buffer : Bytes} (enough : g.slotBytes ≤ buffer.length) (seq : Nat)
    (early late : Bytes) : g.ReadsInside seq early late buffer := by
  have head := g.confines_head seq enough
  have begun := head.length_run early
  cases sized : Frame.size (((g.headTransfer seq).run early buffer).take headerSize)
      (min g.slotBytes buffer.length) with
  | error e =>
    have fetched : g.fetch seq early late buffer =
        ⟨[g.headTransfer seq], (g.headTransfer seq).run early buffer, .error e⟩ := by
      simp only [fetch, sized]
    refine ⟨?_, ?_, ?_⟩ <;> rw [fetched]
    · exact List.forall_mem_singleton.2 head
    · rintro total ⟨⟩
    · exact begun
  | ok total =>
    have fetched : g.fetch seq early late buffer =
        ⟨[g.headTransfer seq, g.bodyTransfer seq total],
          (g.bodyTransfer seq total).run late ((g.headTransfer seq).run early buffer),
          .ok total⟩ := by
      simp only [fetch, sized]
    obtain ⟨least, most⟩ := Frame.le_of_size sized
    have body := g.confines_body seq least most
    refine ⟨?_, ?_, ?_⟩ <;> rw [fetched]
    · exact List.forall_mem_cons.2 ⟨head, List.forall_mem_singleton.2 body⟩
    · rintro _ ⟨⟩
      exact ⟨least, Nat.le_trans most (Nat.min_le_left _ _)⟩
    · rw [← begun] at body
      exact (body.length_run late).trans begun

end Geometry

namespace Ring

variable {g : Geometry}

theorem take_drop_storage (ring : Ring g) (seq : Nat) {offset count : Nat}
    (inside : offset + count ≤ g.slotBytes) :
    (ring.storage.drop (g.slotStart seq + offset)).take count =
      ((ring.slotAt seq).bytes.drop offset).take count := by
  obtain ⟨front, back, start, whole, -⟩ := ring.exists_storage_eq seq
  have long := (ring.slotAt seq).length_bytes
  rw [whole, ← start, List.append_assoc, List.drop_length_add_append,
    List.drop_append_of_le_length (by omega), List.take_append_of_le_length]
  rw [List.length_drop]
  omega

theorem run_headTransfer (ring : Ring g) (seq : Nat) (buffer : Bytes) :
    (g.headTransfer seq).run ring.storage buffer =
      (ring.slotAt seq).bytes.take headerSize ++ buffer.drop headerSize := by
  have lt := g.headerSize_lt
  have head : (ring.storage.drop (g.slotStart seq + 0)).take headerSize =
      ((ring.slotAt seq).bytes.drop 0).take headerSize := ring.take_drop_storage seq (by omega)
  have long : ((ring.slotAt seq).bytes.take headerSize).length = headerSize := by
    rw [List.length_take, (ring.slotAt seq).length_bytes]
    omega
  rw [Nat.add_zero, List.drop_zero] at head
  rw [Transfer.run, Geometry.headTransfer, head, overlay, List.take_zero, List.nil_append,
    Nat.zero_add, long]

theorem take_run_bodyTransfer (ring : Ring g) (seq : Nat) {total : Nat} (rest : Bytes)
    (least : headerSize ≤ total) (most : total ≤ g.slotBytes) :
    ((g.bodyTransfer seq total).run ring.storage
      ((ring.slotAt seq).bytes.take headerSize ++ rest)).take total =
        (ring.slotAt seq).bytes.take total := by
  have long := (ring.slotAt seq).length_bytes
  have head : ((ring.slotAt seq).bytes.take headerSize).length = headerSize := by
    rw [List.length_take]
    omega
  have parts : (ring.slotAt seq).bytes.take total = (ring.slotAt seq).bytes.take headerSize ++
      ((ring.slotAt seq).bytes.drop headerSize).take (total - headerSize) := by
    rw [← List.take_add, Nat.add_sub_cancel' least]
  have size : ((ring.slotAt seq).bytes.take total).length = total := by
    rw [List.length_take]
    omega
  have inside : headerSize + (total - headerSize) ≤ g.slotBytes := by omega
  rw [Transfer.run, Geometry.bodyTransfer, ring.take_drop_storage seq inside, overlay,
    List.take_left' head, ← parts, List.take_left' size]

/-- **Reading a record is copying it from the address of its slot.** -/
theorem read_eq_fetch (ring : Ring g) (seq : Nat) (buffer : Bytes) :
    ring.read seq buffer.length =
      if (ring.slotAt seq).stamp ≠ writtenStamp seq then .overwritten
      else (g.fetch seq ring.storage ring.storage buffer).reading := by
  have head : ((ring.slotAt seq).bytes.take headerSize).length = headerSize := by
    rw [List.length_take, (ring.slotAt seq).length_bytes]
    exact Nat.min_eq_left (Nat.le_of_lt g.headerSize_lt)
  unfold read
  dsimp only
  split
  · rfl
  rw [Geometry.fetch, run_headTransfer, List.take_left' head]
  cases sized : Frame.size ((ring.slotAt seq).bytes.take headerSize)
      (min g.slotBytes buffer.length) with
  | error e => rfl
  | ok total =>
    obtain ⟨least, most⟩ := Frame.le_of_size sized
    exact congrArg Reading.ready (ring.take_run_bodyTransfer seq (buffer.drop headerSize) least
      (Nat.le_trans most (Nat.min_le_left _ _))).symm

end Ring

/-! ### Lengths that are stored -/

theorem Record.states_encode {r : Record} (fits : r.message.length ≤ maxMessageLength)
    (rest : Bytes) : States (r.encode ++ rest) r.message.length := by
  refine ⟨fits, ?_⟩
  rw [encode, List.append_assoc]
  exact Frame.declaredLength_header_append _ _ _ _ fits

/-- What comes of storing a record in a buffer. -/
structure Record.StoresInside (r : Record) (buffer : Bytes) : Prop where
  refused : buffer.length < headerSize → r.store buffer = none
  /-- What is written lies in the buffer, and states the length of what was kept of the message. -/
  stored : headerSize ≤ buffer.length → ∃ n after, r.store buffer = some (n, after) ∧
    headerSize ≤ n ∧ n ≤ buffer.length ∧ States after (n - headerSize)

theorem Record.storesInside (r : Record) (buffer : Bytes) : r.StoresInside buffer where
  refused := (r.store_eq_none_iff buffer).2
  stored := by
    intro room
    have fits : r.storedLength buffer.length ≤ maxMessageLength := Nat.min_le_right _ _
    have kept : (r.cut (r.storedLength buffer.length)).message.length =
        r.storedLength buffer.length := by
      have size := r.length_encode_stored buffer.length
      rw [length_encode] at size
      exact Nat.add_left_cancel size
    have states := states_encode (Nat.le_trans (Nat.le_of_eq kept) fits)
      (buffer.drop (headerSize + r.storedLength buffer.length))
    rw [kept] at states
    refine ⟨_, _, r.store_eq room, Nat.le_add_right _ _, ?_, ?_⟩
    · unfold storedLength messageRoom
      omega
    · rwa [Nat.add_sub_cancel_left]

namespace Thread

variable {n : Nat}

/-- What comes of logging an entry. -/
structure LogsInside (t : Thread n) (now : UInt64) (entry : Entry n) : Prop where
  /-- The records that are published are these, -/
  wrote : t.Wrote (t.log now entry) (t.given now entry) (t.failures now entry)
  /-- each of them fits into a slot of its ring, -/
  fits : ∀ j r, t.given now entry j = some r →
    r.encode.length ≤ (t.channels.get j).geometry.slotBytes
  /-- and each states the length of its message. -/
  states : ∀ j r, t.given now entry j = some r → States r.encode r.message.length

theorem fitted_of_given {t : Thread n} {now : UInt64} {entry : Entry n} {j : Fin n} {r : Record}
    (given : t.given now entry j = some r) : (t.channels.get j).geometry.fitted r = r := by
  unfold Thread.given at given
  split at given
  · next here => exact here ▸ fitted_of_record? given
  · cases given

theorem logsInside (t : Thread n) (now : UInt64) (entry : Entry n) : t.LogsInside now entry := by
  refine ⟨t.wrote_log now entry, fun j r given => ?_, fun j r given => ?_⟩
  · have fits := (t.channels.get j).geometry.length_encode_fitted_le r
    rwa [fitted_of_given given] at fits
  · have stated := (t.channels.get j).geometry.length_fitted_le r
    rw [fitted_of_given given] at stated
    simpa only [List.append_nil] using Record.states_encode stated []

end Thread

/-! ### Rings that settings describe -/

/-- Every access to a ring of this geometry stays where it belongs. -/
structure Geometry.IsSafe (g : Geometry) : Prop where
  addresses : ∀ q, g.Addresses q
  length_storage : ∀ ring : Ring g, ring.storage.length = g.storageBytes
  writesInside : ∀ (ring : Ring g) (q : UInt64) (encoded : Bytes),
    ring.WritesInside q.toNat encoded
  readsInside : ∀ (q : UInt64) (early late buffer : Bytes), g.slotBytes ≤ buffer.length →
    g.ReadsInside q.toNat early late buffer
  read_eq : ∀ (ring : Ring g) (q : UInt64) (buffer : Bytes),
    ring.read q.toNat buffer.length =
      if (ring.slotAt q.toNat).stamp ≠ writtenStamp q.toNat then .overwritten
      else (g.fetch q.toNat ring.storage ring.storage buffer).reading

theorem Geometry.isSafe (g : Geometry) : g.IsSafe where
  addresses := g.addresses
  length_storage := Ring.length_storage
  writesInside ring q := ring.writesInside q.toNat
  readsInside q early late _ enough := g.readsInside enough q.toNat early late
  read_eq ring q := ring.read_eq_fetch q.toNat

namespace Settings

/-- How settings and the ring that is made of them agree. -/
structure Accommodates (s : Settings) : Prop where
  /-- Settings that pass make a ring, if there is a block for its slots; else it panics. -/
  accepted : s.check = .ok () →
    if s.slotCount * s.slotBytes ≤ Geometry.blockMax then
      ∃ g, Geometry.build s.slotCount s.slotBytes = .ok g
    else Geometry.build s.slotCount s.slotBytes = .error .panicked
  /-- Those that fail for these numbers are refused by the ring too, for the same reason. -/
  refused_iff : ∀ fault, fault.isOfRing → (s.check = .error fault ↔
    ∃ e, Geometry.build s.slotCount s.slotBytes = .error (.refused e) ∧ e.inSettings = fault)
  slotCount_eq : ∀ g, Geometry.build s.slotCount s.slotBytes = .ok g → g.slotCount = s.slotCount
  slotBytes_eq : ∀ g, Geometry.build s.slotCount s.slotBytes = .ok g → g.slotBytes = s.slotBytes
  /-- An offset into the block of the slots is a signed word. -/
  storage_le : ∀ g, Geometry.build s.slotCount s.slotBytes = .ok g →
    g.storageBytes ≤ Geometry.blockMax
  isSafe : ∀ g, Geometry.build s.slotCount s.slotBytes = .ok g → g.IsSafe

/-- What becomes of settings that pass depends on their numbers only. -/
theorem build_of_check {s : Settings} (ok : s.check = .ok ()) :
    if s.slotCount * s.slotBytes ≤ Geometry.blockMax then
      ∃ g, Geometry.build s.slotCount s.slotBytes = .ok g
    else Geometry.build s.slotCount s.slotBytes = .error .panicked := by
  obtain ⟨g, passed⟩ := geometry_of_check ok
  obtain ⟨slots, bytes⟩ := Geometry.eq_of_check passed
  have built := Geometry.build_of_check passed
  rw [Geometry.storageBytes, slots, bytes] at built
  split
  · next fits => exact ⟨g, by rw [built, if_pos fits]⟩
  · next large => rw [built, if_neg large]

theorem accommodates (s : Settings) : s.Accommodates where
  accepted := build_of_check
  refused_iff fault ofRing := by
    simp only [s.check_eq_error_iff ofRing, Geometry.build_eq_refused_iff]
  slotCount_eq _ built := (Geometry.eq_of_check (Geometry.check_of_build built).1).1
  slotBytes_eq _ built := (Geometry.eq_of_check (Geometry.check_of_build built).1).2
  storage_le _ built := (Geometry.check_of_build built).2
  isSafe g _ := g.isSafe

end Settings

/-- **Nothing is read or written outside of its slot or its buffer, and no number is too large.**
Settings that pass make a ring wherever a block can hold its slots, and those that fail for its
numbers make none. In a ring every copy stays in the slot of its sequence number, and every length
that is stored, in a slot, in a buffer or by a log call, is stated as it is. -/
theorem storage_is_safe (s : Settings) : s.Accommodates ∧
    (∀ (r : Record) (buffer : Bytes), r.StoresInside buffer) ∧
    ∀ (n : Nat) (t : Thread n) (now : UInt64) (entry : Entry n), t.LogsInside now entry :=
  ⟨s.accommodates, Record.storesInside, fun _ => Thread.logsInside⟩

/-- Two slots of the greatest size. -/
theorem storage_is_safe_largest :
    Settings.check { slotCount := 2, slotBytes := 0x7FFFFFFF } = .ok () ∧
      ∃ g, Geometry.build 2 0x7FFFFFFF = .ok g ∧ g.IsSafe := by
  have count : PowerOfTwo 2 := by decide
  have accepted : Settings.check { slotCount := 2, slotBytes := 0x7FFFFFFF } = .ok () := by
    simp [Settings.check, headerSize, maxMessageLength, wordMax, count]
  obtain ⟨accommodates, -⟩ := storage_is_safe { slotCount := 2, slotBytes := 0x7FFFFFFF }
  obtain ⟨g, built⟩ := accommodates.accepted accepted
  exact ⟨accepted, g, built, accommodates.isSafe g built⟩

/-- Slots of the least size, and more of them than a block holds, though a word still counts their
bytes. -/
theorem passes_and_panics :
    Settings.check { slotCount := 0x1000000000000000, slotBytes := 15 } = .ok () ∧
      Geometry.build 0x1000000000000000 15 = .error .panicked ∧
      Relay.start { slotCount := 0x1000000000000000, slotBytes := 15 } () = .error .panicked := by
  have count : PowerOfTwo 0x1000000000000000 := by decide
  have passes : Settings.check { slotCount := 0x1000000000000000, slotBytes := 15 } = .ok () := by
    simp [Settings.check, headerSize, maxMessageLength, wordMax, count]
  have panics : Geometry.build 0x1000000000000000 15 = .error .panicked :=
    Settings.build_of_check passes
  exact ⟨passes, panics, by simp only [Relay.start, passes, panics]⟩

end LogRelay
