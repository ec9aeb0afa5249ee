/-
# The ring

A ring keeps the encoded records that are published and not yet consumed in a fixed count of slots
of fixed size. Sequence number `s` lives in slot `s` modulo the count. When a record is published
and all slots hold unread ones, the oldest unread record is given up, so publishing never fails and
never waits for the reader.

A slot carries a stamp: `2 s + 1` while sequence `s` is written into it and `2 s + 2` once it is
complete, both as 64-bit words. A reader that asks for a sequence number and finds another stamp
learns that the record is gone. A record longer than a slot is cut to the slot, and its length field
is set to what was kept. A record shorter than a slot leaves the slot's old bytes behind it.

Every access that threads share is an operation of its own here (`claim`, `giveUp`, `countOverflow`,
`beginWrite`, `copyIn`, `endWrite`, `reveal`); `publish` is their sequence for a writer that nobody
disturbs.

Key definitions: `Slot`, `Patch`, `Geometry.patches`, `Ring`, `Ring.publish`, `Ring.publishAlone`,
`Ring.read`, `Ring.commit`.
Key theorems: `Geometry.patches_inside`, `Ring.slotAt_mapSlot`.
-/
import LogRelay.Cursor
import LogRelay.Record.Frame
import LogRelay.Ring.Geometry

namespace LogRelay

/-! ### Slots -/

/-- Bytes to be copied to an offset inside a slot. -/
structure Patch where
  offset : Nat
  bytes : Bytes
  deriving DecidableEq, Repr

/-- The copies that put an encoded record into a slot: as much of it as fits, and the new length if
it was cut. -/
def Geometry.patches (g : Geometry) (encoded : Bytes) : List Patch :=
  ⟨0, encoded.take g.slotBytes⟩ ::
    if g.slotBytes < encoded.length then
      [⟨Layout.lengthAt, bigEndian Layout.lengthSize (g.slotBytes - headerSize)⟩]
    else []

/-- No copy leaves its slot. -/
theorem Geometry.patches_inside (g : Geometry) (encoded : Bytes) :
    ∀ p ∈ g.patches encoded, p.offset + p.bytes.length ≤ g.slotBytes := by
  have room := g.headerSize_lt
  intro p hp
  rw [Geometry.patches, List.mem_cons] at hp
  rcases hp with rfl | hp
  · simp only [List.length_take]; omega
  · split at hp
    · rw [List.mem_singleton] at hp
      subst hp
      simp only [length_bigEndian, headerSize] at room ⊢
      simp only [Layout.lengthAt, Layout.lengthSize, Layout.componentAt, Layout.componentSize,
        Layout.severityAt, Layout.severitySize, Layout.timestampAt, Layout.timestampSize]
      omega
    · simp at hp

/-- The bytes of a slot after some copies. -/
def applyPatches (bytes : Bytes) (patches : List Patch) : Bytes :=
  patches.foldl (fun b p => overlay p.offset p.bytes b) bytes

theorem length_applyPatches {size : Nat} : ∀ (patches : List Patch) (bytes : Bytes),
    bytes.length = size → (∀ p ∈ patches, p.offset + p.bytes.length ≤ size) →
      (applyPatches bytes patches).length = size
  | [], _, h, _ => h
  | p :: rest, bytes, h, inside => by
    have here := inside p List.mem_cons_self
    exact length_applyPatches rest (overlay p.offset p.bytes bytes)
      (by rw [length_overlay (by omega), h]) fun q hq => inside q (List.mem_cons_of_mem _ hq)

/-- The stamp of a slot that sequence `seq` is being written into. -/
def writingStamp (seq : Nat) : UInt64 := UInt64.ofNat (2 * seq + 1)

/-- The stamp of a slot that holds sequence `seq`. -/
def writtenStamp (seq : Nat) : UInt64 := UInt64.ofNat (2 * seq + 2)

/-- One slot: its stamp and its bytes, always as many as the geometry says. -/
structure Slot (g : Geometry) where
  stamp : UInt64
  bytes : Bytes
  length_bytes : bytes.length = g.slotBytes

namespace Slot

/-- A slot that was never written. -/
def fresh (g : Geometry) : Slot g := ⟨0, List.replicate g.slotBytes 0, List.length_replicate⟩

/-- The slot with another stamp. -/
def stamped {g : Geometry} (slot : Slot g) (stamp : UInt64) : Slot g := { slot with stamp := stamp }

/-- The slot after an encoded record was copied in. -/
def copy {g : Geometry} (slot : Slot g) (encoded : Bytes) : Slot g where
  stamp := slot.stamp
  bytes := applyPatches slot.bytes (g.patches encoded)
  length_bytes := length_applyPatches _ _ slot.length_bytes (g.patches_inside encoded)

end Slot

/-! ### The ring and its shared accesses -/

/-- A ring of slots with its cursors. -/
structure Ring (g : Geometry) where
  slots : Vector (Slot g) g.slotCount
  /-- Every sequence below is published. -/
  published : Nat := 0
  /-- The next sequence to be consumed. -/
  consumed : Nat := 0
  /-- The next sequence to be claimed by a writer. -/
  claimed : Nat := 0
  /-- How many unread records were given up. -/
  overflowed : Nat := 0

namespace Ring

variable {g : Geometry}

/-- A ring that holds nothing. -/
def empty (g : Geometry) : Ring g := { slots := Vector.replicate g.slotCount (Slot.fresh g) }

/-- The slot of a sequence number. -/
def slotAt (ring : Ring g) (seq : Nat) : Slot g := ring.slots[g.index seq]

/-- The ring with the slot of a sequence number changed. -/
def mapSlot (ring : Ring g) (seq : Nat) (f : Slot g → Slot g) : Ring g :=
  { ring with slots := ring.slots.set (g.index seq) (f (ring.slotAt seq)) }

/-- Published records that are not consumed. -/
def length (ring : Ring g) : Nat := ring.published - ring.consumed

/-- The oldest sequence that can still be in the ring when `published` sequences are published. -/
def oldestRetained (_ : Ring g) (published : Nat) : Nat := published - g.slotCount

/-- Hands out the next sequence number. -/
def claim (ring : Ring g) : Ring g := { ring with claimed := Cursor.step ring.claimed }

/-- Sequence `seq` would take the slot of an unread record. -/
def IsFullFor (ring : Ring g) (seq : Nat) : Prop := g.slotCount ≤ seq - ring.consumed

instance (ring : Ring g) (seq : Nat) : Decidable (ring.IsFullFor seq) := by
  unfold IsFullFor; infer_instance

/-- Gives up the unread records whose slots `seq` and its predecessors take. -/
def giveUp (ring : Ring g) (seq : Nat) : Ring g :=
  { ring with consumed := Cursor.raise ring.consumed (seq + 1 - g.slotCount) }

/-- Gives up the oldest unread record. -/
def giveUpOldest (ring : Ring g) : Ring g := { ring with consumed := Cursor.step ring.consumed }

/-- Counts a record as given up. -/
def countOverflow (ring : Ring g) : Ring g := { ring with overflowed := ring.overflowed + 1 }

/-- Marks the slot of `seq` as being written. -/
def beginWrite (ring : Ring g) (seq : Nat) : Ring g :=
  ring.mapSlot seq (·.stamped (writingStamp seq))

/-- Copies an encoded record into the slot of `seq`. -/
def copyIn (ring : Ring g) (seq : Nat) (encoded : Bytes) : Ring g :=
  ring.mapSlot seq (·.copy encoded)

/-- Marks the slot of `seq` as written. -/
def endWrite (ring : Ring g) (seq : Nat) : Ring g :=
  ring.mapSlot seq (·.stamped (writtenStamp seq))

/-- Makes `seq` visible to the reader. -/
def reveal (ring : Ring g) (seq : Nat) : Ring g := { ring with published := Cursor.step seq }

/-- Marks everything below `next` as consumed. A commit never undoes a loss. -/
def commit (ring : Ring g) (next : Nat) : Ring g :=
  { ring with consumed := Cursor.raise ring.consumed next }

/-! ### Publishing -/

/-- Writes an encoded record into the slot of `seq`. -/
def writeSlot (ring : Ring g) (seq : Nat) (encoded : Bytes) : Ring g :=
  ((ring.beginWrite seq).copyIn seq encoded).endWrite seq

/-- Publishes an encoded record: claims a sequence, makes room for it, writes it and reveals it.
Returns the sequence. -/
def publish (ring : Ring g) (encoded : Bytes) : Nat × Ring g :=
  let seq := ring.claimed
  let ring := ring.claim
  let ring := if ring.IsFullFor seq then (ring.giveUp seq).countOverflow else ring
  (seq, (ring.writeSlot seq encoded).reveal seq)

/-- Publishes an encoded record without a claim, for a writer that is alone. -/
def publishAlone (ring : Ring g) (encoded : Bytes) : Nat × Ring g :=
  let seq := ring.published
  let ring := if ring.IsFullFor seq then ring.giveUpOldest.countOverflow else ring
  let ring := { ring.writeSlot seq encoded with claimed := Cursor.step seq }
  (seq, { ring with published := Cursor.step ring.published })

/-! ### Reading -/

/-- What a reader finds under a sequence number. -/
inductive Reading
  /-- These bytes, the frame that stands in the slot. -/
  | ready (bytes : Bytes)
  /-- The slot holds another sequence. -/
  | overwritten
  /-- The slot's header is that of no record. -/
  | corrupt (error : FrameError)
  deriving DecidableEq, Repr

/-- Reads sequence `seq` into a buffer of `room` bytes. -/
def read (ring : Ring g) (seq room : Nat) : Reading :=
  let slot := ring.slotAt seq
  if slot.stamp ≠ writtenStamp seq then .overwritten
  else
    match Frame.size (slot.bytes.take headerSize) (min g.slotBytes room) with
    | .error e => .corrupt e
    | .ok total => .ready (slot.bytes.take total)

/-- Reads `count` records from sequence `seq` on and commits each. -/
def readFrom (ring : Ring g) (seq room : Nat) : Nat → List Reading × Ring g
  | 0 => ([], ring)
  | count + 1 =>
    let more := (ring.commit (seq + 1)).readFrom (seq + 1) room count
    (ring.read seq room :: more.1, more.2)

/-- Reads and commits everything that is published now and was not given up. -/
def drain (ring : Ring g) (room : Nat) : List Reading × Ring g :=
  let first := max ring.consumed (ring.oldestRetained ring.published)
  ring.readFrom first room (ring.published - first)

/-- Changing one slot changes that slot only. -/
theorem slotAt_mapSlot (ring : Ring g) (seq other : Nat) (f : Slot g → Slot g) :
    (ring.mapSlot seq f).slotAt other =
      if g.index seq = g.index other then f (ring.slotAt seq) else ring.slotAt other := by
  simp only [mapSlot, slotAt, Fin.getElem_fin, Vector.getElem_set, Fin.ext_iff]

end Ring

end LogRelay
