/-
# What the slots of a ring hold

A ring does not look at what it is given: any bytes may be published, and a record that is shorter
than its slot leaves the slot's old bytes behind it. What lies in a slot is therefore made of
layers, one for every round of the ring, each the image of some published bytes over the layers
below (`Geometry.layers`). A slot of a ring that was published to holds the topmost image and its
stamp, or was never written (`Ring.Layered`); this holds for all bytes and says what every byte of
every slot is, where `Ring.Keeps` says what its front is.

A reader takes a header out of the slot, then as much as the header states, and decodes that. It
comes to the same as decoding the whole slot at once, whatever the layers are.

Key definitions: `Geometry.image`, `Geometry.layers`, `Geometry.imageAt`, `Geometry.found`,
`Ring.serveAll`, `Ring.Layered`, `ReadsAs`.
Key theorems: `Frame.decode_take_of_size`, `Ring.Layered.publish`, `Ring.layered_serveAll`,
`readsAs_found`, `Ring.reads_image`.
-/
import LogRelay.Proofs.Grammar
import LogRelay.Proofs.Solo

namespace LogRelay

/-! ### A frame and the bytes behind it -/

namespace Frame

variable {bytes : Bytes} {capacity total : Nat}

/-- The size of a frame is settled by its header. -/
theorem size_take_headerSize (long : headerSize ≤ bytes.length) (capacity : Nat) :
    size (bytes.take headerSize) capacity = size bytes capacity := by
  have header : (bytes.take headerSize).length = headerSize := by
    rw [List.length_take, Nat.min_eq_left long]
  have declared := declaredLength_append (bytes.drop headerSize) (Nat.le_of_eq header.symm)
  rw [List.take_append_drop] at declared
  by_cases short : capacity < headerSize
  · have least : min bytes.length capacity = capacity := by omega
    simp only [size, short, or_true, if_true, header, least, Nat.min_eq_right (Nat.le_of_lt short)]
  · simp only [size, header, declared, short, Nat.lt_irrefl, Nat.not_lt.2 long, or_self, if_false]

/-- **A frame that is cut out is decoded as it was in its place.** -/
theorem decode_take_of_size (sized : size bytes bytes.length = .ok total) :
    decode (bytes.take total) = decode bytes := by
  obtain ⟨least, most⟩ := le_of_size sized
  have full : (bytes.take total).length = total := by rw [List.length_take, Nat.min_eq_left most]
  have long : headerSize ≤ (bytes.take total).length := by omega
  have declared := declaredLength_append (bytes.drop total) long
  have rank := severityByte_append (bytes.drop total) long
  rw [List.take_append_drop] at declared rank
  have again : size (bytes.take total) (bytes.take total).length = .ok total := by
    have fits := size_eq_ok_iff.1 sized
    rw [declared] at fits
    rw [size_eq_ok_iff]
    omega
  simp only [decode, sized, again, rank, List.take_take, Nat.min_self]

theorem decode_of_size_error (long : headerSize ≤ bytes.length) {e : FrameError}
    (refused : size bytes bytes.length = .error e) :
    decode bytes = .error e ∧ ∃ declared available, e = .lengthMismatch declared available := by
  refine ⟨by simp only [decode, refused], ?_⟩
  have enough : ¬ (bytes.length < headerSize ∨ bytes.length < headerSize) := by omega
  simp only [size, if_neg enough] at refused
  split at refused
  · cases refused
  · cases refused
    exact ⟨_, _, rfl⟩

theorem decode_of_size_ok (sized : size bytes bytes.length = .ok total) :
    (∃ f, decode bytes = .ok f) ∨ ∃ byte, decode bytes = .error (.unknownSeverity byte) := by
  simp only [decode, sized]
  cases Severity.ofRank? (severityByte bytes) with
  | none => exact .inr ⟨_, rfl⟩
  | some severity => exact .inl ⟨_, rfl⟩

end Frame

/-! ### Images -/

namespace Geometry

variable (g : Geometry)

/-- What a slot holds once some bytes were copied over what it held: the bytes, and behind them what
they did not reach. Of bytes that are longer than the slot it holds as much as fits, with a length
field that says so. -/
def image (previous encoded : Bytes) : Bytes :=
  if encoded.length ≤ g.slotBytes then encoded ++ previous.drop encoded.length
  else
    overlay Layout.lengthAt (bigEndian Layout.lengthSize (g.slotBytes - headerSize))
      (encoded.take g.slotBytes)

/-- What slot number `slot` holds after some rounds in which the entries of `log` were published. -/
def layers (log : List Bytes) (slot : Nat) : Nat → Bytes
  | 0 => List.replicate g.slotBytes 0
  | round + 1 => g.image (layers log slot round) (log.getD (g.slotCount * round + slot) [])

/-- What the slot of sequence `seq` holds once `seq` is published. -/
def imageAt (log : List Bytes) (seq : Nat) : Bytes :=
  g.layers log (seq % g.slotCount) (seq / g.slotCount + 1)

/-- What is read in a slot with some image. -/
def found (image : Bytes) : Ring.Reading :=
  match Frame.size image g.slotBytes with
  | .error e => .corrupt e
  | .ok total => .ready (image.take total)

variable {g} {previous : Bytes} {log : List Bytes} {seq : Nat}

theorem applyPatches_eq_image (size : previous.length = g.slotBytes) (encoded : Bytes) :
    applyPatches previous (g.patches encoded) = g.image previous encoded := by
  rw [g.applyPatches_patches encoded size, image]
  by_cases fits : encoded.length ≤ g.slotBytes
  · rw [if_pos fits, kept, if_neg (Nat.not_lt.2 fits)]
  · have long : g.slotBytes < encoded.length := Nat.lt_of_not_le fits
    have reached : previous.drop g.slotBytes = [] := List.drop_eq_nil_of_le (Nat.le_of_eq size)
    rw [if_neg fits, g.length_kept_of_lt long, reached, List.append_nil, kept, if_pos long]

theorem length_image (size : previous.length = g.slotBytes) (encoded : Bytes) :
    (g.image previous encoded).length = g.slotBytes := by
  rw [← applyPatches_eq_image size]
  exact length_applyPatches _ _ size (g.patches_inside encoded)

theorem length_layers (log : List Bytes) (slot round : Nat) :
    (g.layers log slot round).length = g.slotBytes := by
  induction round with
  | zero => exact List.length_replicate
  | succ round ih => exact length_image ih _

theorem length_imageAt (log : List Bytes) (seq : Nat) :
    (g.imageAt log seq).length = g.slotBytes := length_layers _ _ _

/-- The topmost layer is the image of what was published. -/
theorem imageAt_eq_image (published : seq < log.length) : g.imageAt log seq =
    g.image (g.layers log (seq % g.slotCount) (seq / g.slotCount)) log[seq] := by
  rw [imageAt, layers, Nat.div_add_mod, List.getD_eq_getElem _ _ published]

theorem layers_append (more : List Bytes) (slot round : Nat)
    (published : g.slotCount * round + slot < log.length + g.slotCount) :
    g.layers (log ++ more) slot round = g.layers log slot round := by
  induction round with
  | zero => rfl
  | succ round ih =>
    rw [Nat.mul_succ] at published
    rw [layers, layers, ih (by omega), List.getD_append _ _ _ _ (by omega)]

theorem imageAt_append (more : List Bytes) (published : seq < log.length) :
    g.imageAt (log ++ more) seq = g.imageAt log seq := by
  have rounds := Nat.div_add_mod seq g.slotCount
  apply layers_append
  rw [Nat.mul_succ]
  omega

/-- A round later, the image of a sequence is the layer below. -/
theorem imageAt_sub_slotCount (log : List Bytes) (later : g.slotCount ≤ seq) :
    g.imageAt log (seq - g.slotCount) =
      g.layers log (seq % g.slotCount) (seq / g.slotCount) := by
  have rounds : (seq - g.slotCount) / g.slotCount + 1 = seq / g.slotCount :=
    (Nat.div_eq_sub_div g.slotCount_pos later).symm
  rw [imageAt, rounds, ← Nat.mod_eq_sub_mod later]

end Geometry

/-! ### Requests to a ring -/

/-- What a request publishes. -/
def RingRequest.encoded? : RingRequest → Option Bytes
  | .publish encoded => some encoded
  | .commit _ | .read _ _ | .drain _ => none

/-- All that some requests publish, in order. -/
def publications (requests : List (WriterMode × RingRequest)) : List Bytes :=
  requests.filterMap fun request => request.2.encoded?

namespace Ring

variable {g : Geometry} {ring : Ring g} {log : List Bytes}

/-- Serves some requests one after the other, each in the way of its mode. -/
def serveAll (ring : Ring g) (requests : List (WriterMode × RingRequest)) : Ring g :=
  requests.foldl (fun ring request => (ring.serve request.1 request.2).2) ring

/-- **The invariant.** The entries of `log` were published, and a slot holds the image of the last
entry that went into it, with its stamp, or was never written. -/
structure Layered (ring : Ring g) (log : List Bytes) : Prop where
  solo : ring.Solo
  published : ring.published = log.length
  stamp : ∀ s < log.length, log.length ≤ s + g.slotCount →
    (ring.slotAt s).stamp = writtenStamp s
  bytes : ∀ s < log.length, log.length ≤ s + g.slotCount →
    (ring.slotAt s).bytes = g.imageAt log s
  fresh : ∀ s, log.length ≤ s → s < g.slotCount → ring.slotAt s = Slot.fresh g

/-! Publishing, as one slot sees it and as the others do. -/

theorem stamp_writeSlot (ring : Ring g) (seq : Nat) (encoded : Bytes) :
    ((ring.writeSlot seq encoded).slotAt seq).stamp = writtenStamp seq :=
  (holds_writeSlot ring seq encoded).1

theorem bytes_writeSlot (ring : Ring g) (seq : Nat) (encoded : Bytes) :
    ((ring.writeSlot seq encoded).slotAt seq).bytes =
      g.image (ring.slotAt seq).bytes encoded := by
  rw [← Geometry.applyPatches_eq_image (ring.slotAt seq).length_bytes]
  simp only [writeSlot, endWrite, copyIn, beginWrite, slotAt_mapSlot, if_pos, Slot.stamped,
    Slot.copy]

/-- In either mode the slot of the new sequence gets the image, and no other slot is touched. -/
theorem Solo.slots_publishBy (solo : ring.Solo) (mode : WriterMode) (encoded : Bytes) :
    ((ring.publishBy mode encoded).2.slotAt (ring.publishBy mode encoded).1).bytes =
        g.image (ring.slotAt (ring.publishBy mode encoded).1).bytes encoded ∧
      ∀ other, g.index (ring.publishBy mode encoded).1 ≠ g.index other →
        (ring.publishBy mode encoded).2.slotAt other = ring.slotAt other := by
  rw [solo.publishBy_eq mode encoded]
  refine ⟨?_, ?_⟩
  · rw [slotAt_publish]
    exact ring.bytes_writeSlot ring.claimed encoded
  · intro other apart
    rw [slotAt_publish]
    exact slotAt_writeSlot_of_ne ring encoded apart

/-! ### The invariant is kept -/

theorem layered_empty (g : Geometry) : (empty g).Layered [] where
  solo := Solo.empty g
  published := rfl
  stamp s lt := absurd lt (Nat.not_lt_zero s)
  bytes s lt := absurd lt (Nat.not_lt_zero s)
  fresh s _ _ := by simp only [slotAt, empty, Fin.getElem_fin, Vector.getElem_replicate]

/-- What the next record is laid over. -/
theorem Layered.bytes_next (layered : ring.Layered log) :
    (ring.slotAt log.length).bytes =
      g.layers log (log.length % g.slotCount) (log.length / g.slotCount) := by
  by_cases first : log.length < g.slotCount
  · rw [layered.fresh _ (Nat.le_refl _) first, Nat.div_eq_of_lt first]
    rfl
  · have later : g.slotCount ≤ log.length := Nat.le_of_not_lt first
    have pos := g.slotCount_pos
    have same := g.index_add_slotCount (log.length - g.slotCount)
    rw [Nat.sub_add_cancel later] at same
    rw [ring.slotAt_congr same, layered.bytes _ (by omega) (by omega),
      Geometry.imageAt_sub_slotCount log later]

theorem Layered.publish (layered : ring.Layered log) (encoded : Bytes) :
    (ring.publish encoded).2.Layered (log ++ [encoded]) := by
  have grown : (log ++ [encoded]).length = log.length + 1 := List.length_append
  have claimed : ring.claimed = log.length := layered.solo.claimed_eq.trans layered.published
  have last : log.length < (log ++ [encoded]).length := by omega
  have apart : ∀ s, s < log.length → log.length < s + g.slotCount →
      (ring.publish encoded).2.slotAt s = ring.slotAt s := by
    intro s older near
    rw [slotAt_publish, claimed]
    exact slotAt_writeSlot_of_ne ring encoded (g.index_ne older near).symm
  refine ⟨layered.solo.publish encoded, ?_, ?_, ?_, ?_⟩
  · rw [published_publish, claimed, grown]
  · intro s lt near
    by_cases new : s = log.length
    · rw [new, slotAt_publish, claimed]
      exact stamp_writeSlot _ _ _
    · rw [apart s (by omega) (by omega)]
      exact layered.stamp s (by omega) (by omega)
  · intro s lt near
    by_cases new : s = log.length
    · have below : g.layers (log ++ [encoded]) (log.length % g.slotCount)
          (log.length / g.slotCount) = (ring.slotAt log.length).bytes := by
        rw [layered.bytes_next]
        apply Geometry.layers_append
        rw [Nat.div_add_mod]
        have pos := g.slotCount_pos
        omega
      rw [new, slotAt_publish, claimed, bytes_writeSlot, Geometry.imageAt_eq_image last, below]
      simp only [List.getElem_append_right (Nat.le_refl _), Nat.sub_self, List.getElem_cons_zero]
    · have older : s < log.length := by omega
      rw [apart s older (by omega), Geometry.imageAt_append [encoded] older]
      exact layered.bytes s older (by omega)
  · intro s le lt
    have unlike : g.index log.length ≠ g.index s := g.index_ne (by omega) (by omega)
    rw [slotAt_publish, claimed, slotAt_writeSlot_of_ne ring encoded unlike]
    exact layered.fresh s (by omega) lt

theorem Layered.commit (layered : ring.Layered log) (next : Nat) :
    (ring.commit next).Layered log :=
  ⟨layered.solo.commit next, layered.published, layered.stamp, layered.bytes, layered.fresh⟩

theorem Layered.readFrom (room : Nat) : ∀ (count seq : Nat) {ring : Ring g},
    ring.Layered log → (ring.readFrom seq room count).2.Layered log
  | 0, _, _, layered => layered
  | count + 1, seq, _, layered => readFrom room count (seq + 1) (layered.commit (seq + 1))

theorem Layered.serve (layered : ring.Layered log) (mode : WriterMode) (request : RingRequest) :
    (ring.serve mode request).2.Layered (log ++ request.encoded?.toList) := by
  cases request with
  | publish encoded =>
    rw [Ring.serve, layered.solo.publishBy_eq mode encoded]
    exact layered.publish encoded
  | commit next => exact (List.append_nil log).symm ▸ layered.commit next
  | read seq extra => exact (List.append_nil log).symm ▸ layered
  | drain extra => exact (List.append_nil log).symm ▸ Layered.readFrom _ _ _ layered

theorem Layered.serveAll (layered : ring.Layered log)
    (requests : List (WriterMode × RingRequest)) :
    (ring.serveAll requests).Layered (log ++ publications requests) := by
  induction requests generalizing ring log with
  | nil => exact (List.append_nil log).symm ▸ layered
  | cons request rest ih =>
    have served := ih (layered.serve request.1 request.2)
    have split : publications (request :: rest) =
        request.2.encoded?.toList ++ publications rest := by
      rw [publications, List.filterMap_cons]
      cases request.2.encoded? <;> rfl
    rw [split, ← List.append_assoc]
    exact served

/-- Whatever a new ring is asked for, its slots hold the layers of what was published. -/
theorem layered_serveAll (g : Geometry) (requests : List (WriterMode × RingRequest)) :
    ((empty g).serveAll requests).Layered (publications requests) :=
  (layered_empty g).serveAll requests

/-! ### Reading -/

/-- What is read is what is found in the image of the slot, if the stamp is right. -/
theorem read_eq_found {seq : Nat} {image : Bytes} (stamp : (ring.slotAt seq).stamp =
    writtenStamp seq) (bytes : (ring.slotAt seq).bytes = image) (extra : Nat) :
    ring.read seq (g.slotBytes + extra) = g.found image := by
  have size := (ring.slotAt seq).length_bytes
  rw [bytes] at size
  have long : headerSize ≤ image.length := by
    rw [size]
    exact Nat.le_of_lt g.headerSize_lt
  have room : min g.slotBytes (g.slotBytes + extra) = g.slotBytes :=
    Nat.min_eq_left (Nat.le_add_right _ _)
  simp only [read, stamp, ne_eq, not_true_eq_false, if_false, room,
    bytes, Frame.size_take_headerSize long]
  rfl

end Ring

/-- What was read in a slot says the same as what the whole image of the slot is decoded to. -/
structure ReadsAs (image : Bytes) (reading : Ring.Reading) : Prop where
  /-- Only a length that does not fit makes a slot corrupt. -/
  corrupt_iff : ∀ e, reading = .corrupt e ↔
    Frame.decode image = .error e ∧ ∃ declared available, e = .lengthMismatch declared available
  /-- Otherwise the front of the image is read, and is decoded as the image is. -/
  ready : (∀ e, reading ≠ .corrupt e) → ∃ n ≤ image.length, reading = .ready (image.take n) ∧
    Frame.decode (image.take n) = Frame.decode image ∧
      ((∃ f, Frame.decode image = .ok f) ∨
        ∃ byte, Frame.decode image = .error (.unknownSeverity byte))

theorem readsAs_found {g : Geometry} {image : Bytes} (size : image.length = g.slotBytes) :
    ReadsAs image (g.found image) := by
  have long : headerSize ≤ image.length := by
    rw [size]
    exact Nat.le_of_lt g.headerSize_lt
  unfold Geometry.found
  rw [← size]
  cases sized : Frame.size image image.length with
  | error e =>
    obtain ⟨decoded, declared, available, rfl⟩ := Frame.decode_of_size_error long sized
    refine ⟨?_, ?_⟩
    · intro e
      rw [decoded]
      constructor
      · rintro ⟨⟩
        exact ⟨rfl, declared, available, rfl⟩
      · rintro ⟨⟨⟩, -⟩
        rfl
    · intro whole
      exact absurd rfl (whole _)
  | ok total =>
    have kind := Frame.decode_of_size_ok sized
    refine ⟨?_, ?_⟩
    · intro e
      constructor
      · rintro ⟨⟩
      · rintro ⟨decoded, declared, available, rfl⟩
        rcases kind with ⟨f, accepted⟩ | ⟨byte, unknown⟩
        · cases accepted.symm.trans decoded
        · cases unknown.symm.trans decoded
    · intro _
      exact ⟨total, (Frame.le_of_size sized).2, rfl, Frame.decode_take_of_size sized, kind⟩

namespace Ring

/-- **Reading a slot is decoding its image.** Whatever bytes were published into a new ring, in
either mode, and whatever was committed, read and drained meanwhile: as long as a sequence is
retained its slot holds its image, and what is read there says the same as what the whole image is
decoded to. Publishing more lays an image over one slot and touches no other. -/
theorem reads_image (g : Geometry) (requests : List (WriterMode × RingRequest)) (s extra : Nat)
    (published : s < (publications requests).length)
    (retained : (publications requests).length ≤ s + g.slotCount) :
    let ring := (empty g).serveAll requests
    let image := g.imageAt (publications requests) s
    (ring.slotAt s).bytes = image ∧ ReadsAs image (ring.read s (g.slotBytes + extra)) ∧
      ∀ mode encoded, let (seq, after) := ring.publishBy mode encoded
        (after.slotAt seq).bytes = g.image (ring.slotAt seq).bytes encoded ∧
          ∀ other, g.index seq ≠ g.index other → after.slotAt other = ring.slotAt other := by
  intro ring image
  have layered : ring.Layered (publications requests) := layered_serveAll g requests
  have bytes := layered.bytes s published retained
  refine ⟨bytes, ?_, fun mode encoded => layered.solo.slots_publishBy mode encoded⟩
  rw [read_eq_found (layered.stamp s published retained) bytes]
  exact readsAs_found (Geometry.length_imageAt _ _)

/-- Three layers in the first slot: bytes that are cut to the slot, three bytes over them, nothing
over these. The second slot gets a header whose length is negative. -/
def patchwork : List (WriterMode × RingRequest) :=
  [(.claimed, .publish (List.replicate 20 255)), (.single, .publish []), (.single, .commit 9),
    (.claimed, .publish [1, 2, 3]), (.claimed, .drain 0),
    (.single, .publish (List.replicate headerSize 128)), (.single, .publish [])]

/-- The length field of the lowest layer is in force, and so is its severity, which is none. -/
theorem reads_image_patchwork :
    let g := Geometry.twoSlots
    let ring := (empty g).serveAll patchwork
    let image := g.imageAt (publications patchwork) 4
    4 < (publications patchwork).length ∧ (publications patchwork).length ≤ 4 + g.slotCount ∧
      ((ring.slotAt 4).bytes = image ∧ ReadsAs image (ring.read 4 (g.slotBytes + 1)) ∧
        ∀ mode encoded, let (seq, after) := ring.publishBy mode encoded
          (after.slotAt seq).bytes = g.image (ring.slotAt seq).bytes encoded ∧
            ∀ other, g.index seq ≠ g.index other → after.slotAt other = ring.slotAt other) ∧
      image = [1, 2, 3] ++ List.replicate 7 255 ++ [0, 0, 0, 2, 255, 255] ∧
      ring.read 4 17 = .ready image ∧ ring.read 3 16 = .corrupt (.lengthMismatch (-0x7F7F7F80) 2) :=
  ⟨by decide, by decide, reads_image .twoSlots patchwork 4 1 (by decide) (by decide), by decide,
    by decide, by decide⟩

end Ring

end LogRelay
