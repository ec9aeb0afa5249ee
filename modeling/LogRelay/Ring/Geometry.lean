/-
# Ring geometry

A ring has a count of slots, which is a power of two and at least two, and a size of every slot,
which leaves room for at least one byte behind a header and is a length that a record can state. All
slots together are addressed by a word of 64 bits. Sequence numbers are laid over the slots by
masking, which for a power of two is the remainder.

Two numbers that pass all checks are not yet a ring. Its memory is asked for in two blocks, and a
block whose size is no signed word of 64 bits cannot be asked for on any machine: that is a panic,
not an error. Whether a machine has a block of a size that can be asked for is left open.

Key definitions: `PowerOfTwo`, `Geometry`, `Geometry.check`, `Geometry.build`, `Geometry.index`.
Key theorems: `Geometry.check_eq_ok_iff`, `Geometry.build_of_check`, `Geometry.index_eq_mod`.
-/
import LogRelay.Duration
import LogRelay.Failure
import LogRelay.Record.Basic

namespace LogRelay

/-- A number that is 2, 4, 8 and so on. -/
def PowerOfTwo (n : Nat) : Prop := 2 ≤ n ∧ n = 1 <<< n.log2

instance (n : Nat) : Decidable (PowerOfTwo n) := by unfold PowerOfTwo; infer_instance

/-- The shape of a ring. -/
structure Geometry where
  slotCount : Nat
  slotBytes : Nat
  powerOfTwo_slotCount : PowerOfTwo slotCount
  headerSize_lt : headerSize < slotBytes
  slotBytes_le : slotBytes ≤ maxMessageLength
  storage_le : slotCount * slotBytes ≤ wordMax

/-- Why two numbers are no geometry. -/
inductive GeometryFault
  | slotCount (given : Nat)
  | slotBytes (given : Nat)
  | storage
  deriving DecidableEq, Repr

/-- The wording of a geometry's fault. -/
def GeometryFault.message : GeometryFault → String
  | slotCount given => "ring capacity must be a power of two >= 2, got " ++ toString given
  | slotBytes given =>
    "slot capacity must be in " ++ toString (headerSize + 1) ++ "..=" ++ toString maxMessageLength
      ++ ", got " ++ toString given
  | storage => "ring storage size overflows usize"

namespace Geometry

/-- The geometry of two numbers that pass the checks of a ring, or the first fault found. No memory
is asked for yet. -/
def check (slotCount slotBytes : Nat) : Except GeometryFault Geometry :=
  if count : PowerOfTwo slotCount then
    if bytes : headerSize < slotBytes ∧ slotBytes ≤ maxMessageLength then
      if storage : slotCount * slotBytes ≤ wordMax then
        .ok ⟨slotCount, slotBytes, count, bytes.1, bytes.2, storage⟩
      else .error .storage
    else .error (.slotBytes slotBytes)
  else .error (.slotCount slotCount)

/-- Two numbers make a geometry exactly if all four conditions hold. -/
theorem check_eq_ok_iff {slotCount slotBytes : Nat} :
    (∃ g, check slotCount slotBytes = .ok g) ↔
      PowerOfTwo slotCount ∧ headerSize < slotBytes ∧ slotBytes ≤ maxMessageLength ∧
        slotCount * slotBytes ≤ wordMax := by
  unfold check
  split
  · next count =>
    split
    · next bytes =>
      split
      · next storage => exact ⟨fun _ => ⟨count, bytes.1, bytes.2, storage⟩, fun _ => ⟨_, rfl⟩⟩
      · next storage =>
        exact ⟨fun h => by simp at h, fun h => absurd h.2.2.2 storage⟩
    · next bytes =>
      exact ⟨fun h => by simp at h, fun h => absurd ⟨h.2.1, h.2.2.1⟩ bytes⟩
  · next count =>
    exact ⟨fun h => by simp at h, fun h => absurd h.1 count⟩

/-- How many bytes all slots have. -/
def storageBytes (g : Geometry) : Nat := g.slotCount * g.slotBytes

/-- How many bytes the stamp of a slot has. -/
def stampBytes : Nat := 8

/-- The greatest block of memory that can be asked for. -/
def blockMax : Nat := 0x7FFFFFFFFFFFFFFF

/-- The blocks that a ring asks for: one for all slots, and one for their stamps. -/
def blocks (g : Geometry) : List Nat := [g.storageBytes, g.slotCount * stampBytes]

/-- Makes a ring of two numbers: checks them, and asks for its blocks. -/
def build (slotCount slotBytes : Nat) : Except (Failure GeometryFault) Geometry :=
  match check slotCount slotBytes with
  | .error fault => .error (.refused fault)
  | .ok g => if ∀ block ∈ g.blocks, block ≤ blockMax then .ok g else .error .panicked

/-- A stamp is smaller than any slot, so the block of the slots is the larger one. -/
theorem forall_blocks_le_iff (g : Geometry) :
    (∀ block ∈ g.blocks, block ≤ blockMax) ↔ g.storageBytes ≤ blockMax := by
  have smaller : g.slotCount * stampBytes ≤ g.storageBytes :=
    Nat.mul_le_mul_left _ (Nat.le_trans (by decide) (Nat.le_of_lt g.headerSize_lt))
  rw [blocks, List.forall_mem_cons, List.forall_mem_singleton]
  exact ⟨And.left, fun fits => ⟨fits, Nat.le_trans smaller fits⟩⟩

/-- **Numbers that pass the checks make a ring unless its slots are too large for a block.** -/
theorem build_of_check {slotCount slotBytes : Nat} {g : Geometry}
    (passed : check slotCount slotBytes = .ok g) :
    build slotCount slotBytes =
      if g.storageBytes ≤ blockMax then .ok g else .error .panicked := by
  simp only [build, passed, forall_blocks_le_iff]

theorem check_of_build {slotCount slotBytes : Nat} {g : Geometry}
    (built : build slotCount slotBytes = .ok g) :
    check slotCount slotBytes = .ok g ∧ g.storageBytes ≤ blockMax := by
  cases passed : check slotCount slotBytes with
  | error fault =>
    simp only [build, passed] at built
    cases built
  | ok shape =>
    rw [build_of_check passed] at built
    split at built
    · next fits =>
      cases built
      exact ⟨rfl, fits⟩
    · cases built

theorem build_eq_refused_iff {slotCount slotBytes : Nat} {fault : GeometryFault} :
    build slotCount slotBytes = .error (.refused fault) ↔
      check slotCount slotBytes = .error fault := by
  cases passed : check slotCount slotBytes with
  | error earlier => simp only [build, passed, Except.error.injEq, Failure.refused.injEq]
  | ok shape =>
    rw [build_of_check passed]
    split <;> simp

theorem slotCount_pos (g : Geometry) : 0 < g.slotCount :=
  Nat.lt_of_lt_of_le (by decide) g.powerOfTwo_slotCount.1

/-- The bits of a sequence number that choose its slot. -/
def mask (g : Geometry) : Nat := g.slotCount - 1

theorem and_mask (g : Geometry) (seq : Nat) : seq &&& g.mask = seq % g.slotCount := by
  rw [mask, g.powerOfTwo_slotCount.2, Nat.one_shiftLeft, Nat.and_two_pow_sub_one_eq_mod]

/-- The slot of a sequence number. -/
def index (g : Geometry) (seq : Nat) : Fin g.slotCount :=
  ⟨seq &&& g.mask, by rw [and_mask]; exact Nat.mod_lt _ g.slotCount_pos⟩

/-- Sequence numbers go round the slots. -/
theorem index_eq_mod (g : Geometry) (seq : Nat) : (g.index seq).val = seq % g.slotCount :=
  g.and_mask seq

end Geometry

end LogRelay
