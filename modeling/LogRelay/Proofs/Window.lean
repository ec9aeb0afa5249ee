/-
# Which sequences can be read

A stamp is a word of 64 bits made from twice the sequence, so it repeats after `stampSpan`
sequences, and the stamp of a slot that was never written is also the one that the last sequence of
every span would leave. As long as fewer sequences than that were published, no two of them share a
stamp, and since the count of slots divides `stampSpan`, two sequences with one stamp have one slot.
So a slot answers to the sequences that agree with the last one that went into it, and to no others.

Nothing of this depends on the reader's cursor, which a read does not look at.

Key definitions: `stampSpan`, `Ring.Window`.
Key theorems: `writtenStamp_eq_iff`, `writtenStamp_eq_zero_iff`, `Geometry.slotCount_dvd_stampSpan`,
`Ring.Layered.slotAt_cases`, `Ring.Layered.read_of_stamp`, `Ring.Layered.of_read_ne`,
`Ring.window_serveAll`.
-/
import LogRelay.Proofs.Layers

namespace LogRelay

/-! ### Stamps -/

/-- Sequences that far apart have the same stamp. -/
def stampSpan : Nat := 0x8000000000000000

/-- Stamps tell sequences apart that are not a multiple of a span from each other. -/
theorem writtenStamp_eq_iff {s t : Nat} :
    writtenStamp s = writtenStamp t ↔ s % stampSpan = t % stampSpan := by
  rw [← UInt64.toNat_inj]
  simp only [writtenStamp, UInt64.toNat_ofNat', stampSpan]
  omega

theorem writtenStamp_eq_zero_iff {s : Nat} :
    writtenStamp s = 0 ↔ s % stampSpan = stampSpan - 1 := by
  rw [← UInt64.toNat_inj]
  simp only [writtenStamp, UInt64.toNat_ofNat', UInt64.toNat_zero, stampSpan]
  omega

namespace Geometry

variable (g : Geometry)

theorem slotCount_lt_stampSpan : g.slotCount < stampSpan := by
  have storage := g.storage_le
  have roomy : 2 ≤ g.slotBytes := Nat.le_trans (by decide) (Nat.le_of_lt g.headerSize_lt)
  have double : g.slotCount * 2 ≤ g.slotCount * g.slotBytes := Nat.mul_le_mul_left _ roomy
  unfold wordMax at storage
  unfold stampSpan
  omega

theorem slotCount_dvd_stampSpan : g.slotCount ∣ stampSpan := by
  have power := g.powerOfTwo_slotCount.2
  have lt := g.slotCount_lt_stampSpan
  have span : stampSpan = 1 <<< 63 := rfl
  rw [Nat.one_shiftLeft] at power span
  rw [power, span] at lt ⊢
  exact Nat.pow_dvd_pow 2 (Nat.le_of_lt ((Nat.pow_lt_pow_iff_right (by decide)).1 lt))

theorem mod_slotCount_of_last {q : Nat} (last : q % stampSpan = stampSpan - 1) :
    q % g.slotCount = g.slotCount - 1 := by
  have whole : stampSpan ∣ q + 1 := by
    unfold stampSpan at last ⊢
    omega
  have rounds := Nat.dvd_trans g.slotCount_dvd_stampSpan whole
  rw [← Nat.div_add_mod q g.slotCount, Nat.add_assoc] at rounds
  have least := Nat.le_of_dvd (Nat.succ_pos _) ((Nat.dvd_add_right (Nat.dvd_mul_right _ _)).1 rounds)
  have inside := Nat.mod_lt q g.slotCount_pos
  omega

theorem index_eq_of_stamp {s t : Nat} (same : s % stampSpan = t % stampSpan) :
    g.index s = g.index t := by
  apply Fin.ext
  rw [g.index_eq_mod, g.index_eq_mod, ← Nat.mod_mod_of_dvd s g.slotCount_dvd_stampSpan, same,
    Nat.mod_mod_of_dvd t g.slotCount_dvd_stampSpan]

end Geometry

/-! ### Slots and their sequences -/

namespace Ring

variable {g : Geometry} {ring : Ring g} {log : List Bytes}

/-- The slot of any sequence holds a retained one, or was never written. -/
theorem Layered.slotAt_cases (layered : ring.Layered log) (q : Nat) :
    (∃ w < log.length, log.length ≤ w + g.slotCount ∧ g.index w = g.index q) ∨
      log.length ≤ q % g.slotCount ∧ ring.slotAt q = Slot.fresh g := by
  have pos := g.slotCount_pos
  obtain ⟨k, def_⟩ : ∃ k, k = q % g.slotCount := ⟨_, rfl⟩
  have inside : k < g.slotCount := def_ ▸ Nat.mod_lt q pos
  have index : ∀ rounds, g.index (k + g.slotCount * rounds) = g.index q := by
    intro rounds
    apply Fin.ext
    rw [g.index_eq_mod, g.index_eq_mod, Nat.add_mul_mod_self_left, def_, Nat.mod_mod]
  by_cases written : k < log.length
  · -- the last sequence that went into the slot is so many rounds behind the first
    obtain ⟨rounds, count⟩ : ∃ n, n = (log.length - 1 - k) / g.slotCount := ⟨_, rfl⟩
    have round := Nat.div_add_mod (log.length - 1 - k) g.slotCount
    have rest := Nat.mod_lt (log.length - 1 - k) pos
    rw [← count] at round
    exact .inl ⟨k + g.slotCount * rounds, by omega, by omega, index rounds⟩
  · have never : log.length ≤ k := Nat.le_of_not_lt written
    refine .inr ⟨def_ ▸ never, ?_⟩
    rw [← ring.slotAt_congr (index 0)]
    exact layered.fresh k never inside

theorem found_zeros (g : Geometry) :
    g.found (List.replicate g.slotBytes 0) = .ready (List.replicate headerSize 0) := by
  have lt := g.headerSize_lt
  have field : ((List.replicate g.slotBytes (0 : UInt8)).drop Layout.lengthAt).take
      Layout.lengthSize = [0, 0, 0, 0] := by
    have inside : Layout.lengthSize ≤ g.slotBytes - Layout.lengthAt :=
      Nat.le_sub_of_add_le (Nat.le_trans (by decide) (Nat.le_of_lt lt))
    rw [List.drop_replicate, List.take_replicate, Nat.min_eq_left inside]
    rfl
  have declared : Frame.declaredLength (List.replicate g.slotBytes 0) = 0 := by
    have spelled : ofBigEndian [0, 0, 0, 0] = 0 := rfl
    rw [Frame.declaredLength, field, spelled]
    exact signed32_of_le (Nat.zero_le _)
  have sized : Frame.size (List.replicate g.slotBytes 0) g.slotBytes = .ok headerSize := by
    rw [Frame.size_eq_ok_iff, declared, List.length_replicate]
    exact ⟨Nat.le_of_lt lt, Nat.le_of_lt lt, Int.le_refl 0, Nat.le_of_lt lt, rfl⟩
  simp only [Geometry.found, sized, List.take_replicate, Nat.min_eq_left (Nat.le_of_lt lt)]

/-- A slot that was never written is read by those who ask for the last sequence of a span. -/
theorem read_fresh {q : Nat} (fresh : ring.slotAt q = Slot.fresh g) (extra : Nat) :
    ring.read q (g.slotBytes + extra) =
      if q % stampSpan = stampSpan - 1 then .ready (List.replicate headerSize 0)
      else .overwritten := by
  by_cases last : q % stampSpan = stampSpan - 1
  · rw [if_pos last, ← found_zeros g]
    apply read_eq_found
    · rw [fresh, writtenStamp_eq_zero_iff.2 last]
      rfl
    · rw [fresh]
      rfl
  · rw [if_neg last]
    apply read_of_stamp_ne
    rw [fresh]
    exact fun same => last (writtenStamp_eq_zero_iff.1 same.symm)

theorem found_ne_overwritten (image : Bytes) : g.found image ≠ .overwritten := by
  unfold Geometry.found
  split
  · rintro ⟨⟩
  · rintro ⟨⟩

theorem Layered.read_of_stamp (layered : ring.Layered log) {w q : Nat} (published : w < log.length)
    (retained : log.length ≤ w + g.slotCount) (same : w % stampSpan = q % stampSpan)
    (extra : Nat) : ring.read q (g.slotBytes + extra) = g.found (g.imageAt log w) := by
  have here : ring.slotAt q = ring.slotAt w := ring.slotAt_congr (g.index_eq_of_stamp same).symm
  apply read_eq_found
  · rw [here, layered.stamp w published retained]
    exact writtenStamp_eq_iff.2 same
  · rw [here, layered.bytes w published retained]

/-- Whoever gets anything has asked for a sequence with the stamp of a retained one, or for that of
a slot that was never written. -/
theorem Layered.of_read_ne (layered : ring.Layered log) {q extra : Nat}
    (read : ring.read q (g.slotBytes + extra) ≠ .overwritten) :
    (∃ w < log.length, log.length ≤ w + g.slotCount ∧ w % stampSpan = q % stampSpan) ∨
      log.length < g.slotCount ∧ q % stampSpan = stampSpan - 1 := by
  rcases layered.slotAt_cases q with ⟨w, published, retained, index⟩ | ⟨never, fresh⟩
  · refine .inl ⟨w, published, retained, Decidable.byContradiction fun apart => ?_⟩
    refine read (read_of_stamp_ne _ ?_)
    rw [← ring.slotAt_congr index, layered.stamp w published retained]
    exact fun same => apart (writtenStamp_eq_iff.1 same)
  · rw [read_fresh fresh] at read
    have inside := Nat.mod_lt q g.slotCount_pos
    exact .inr ⟨by omega, Decidable.byContradiction fun other => read (if_neg other)⟩

/-! ### The window -/

/-- What reading any word as a sequence comes to, in a ring to which the entries of `log` were
published. -/
structure Window (ring : Ring g) (log : List Bytes) (q : UInt64) (extra : Nat) : Prop where
  readable_iff : ring.read q.toNat (g.slotBytes + extra) ≠ .overwritten ↔
    (∃ w, log.length - g.slotCount ≤ w ∧ w < log.length ∧
      w % stampSpan = q.toNat % stampSpan) ∨
    log.length < g.slotCount ∧ q.toNat % stampSpan = stampSpan - 1
  /-- It is read as the retained sequence is, from the image of what was published there. -/
  read_eq : ∀ w, log.length - g.slotCount ≤ w → w < log.length →
    w % stampSpan = q.toNat % stampSpan →
      ring.read q.toNat (g.slotBytes + extra) = ring.read w (g.slotBytes + extra) ∧
        ring.read w (g.slotBytes + extra) = g.found (g.imageAt log w)
  /-- A slot that was never written is read as a header of zeros. -/
  read_fresh : log.length < g.slotCount → q.toNat % stampSpan = stampSpan - 1 →
    ring.read q.toNat (g.slotBytes + extra) = .ready (List.replicate headerSize 0)
  /-- Of the published sequences just the last ones can be read. -/
  overwritten_iff : q.toNat < log.length →
    (ring.read q.toNat (g.slotBytes + extra) = .overwritten ↔
      q.toNat < log.length - g.slotCount)
  /-- Wherever the reader's cursor is. -/
  read_consumed : ∀ consumed, ({ ring with consumed } : Ring g).read q.toNat
    (g.slotBytes + extra) = ring.read q.toNat (g.slotBytes + extra)

theorem Layered.window (layered : ring.Layered log) (few : log.length < stampSpan) (q : UInt64)
    (extra : Nat) : ring.Window log q extra := by
  have fresh : log.length < g.slotCount → q.toNat % stampSpan = stampSpan - 1 →
      ring.read q.toNat (g.slotBytes + extra) = .ready (List.replicate headerSize 0) := by
    intro room last
    have slot := g.mod_slotCount_of_last last
    have never : ring.slotAt q.toNat = Slot.fresh g := by
      rw [← layered.fresh (g.slotCount - 1) (by omega) (by omega)]
      apply ring.slotAt_congr
      apply Fin.ext
      rw [g.index_eq_mod, g.index_eq_mod, slot, Nat.mod_eq_of_lt (by omega)]
    rw [Ring.read_fresh never, if_pos last]
  have readable : ring.read q.toNat (g.slotBytes + extra) ≠ .overwritten ↔
      (∃ w, log.length - g.slotCount ≤ w ∧ w < log.length ∧
        w % stampSpan = q.toNat % stampSpan) ∨
      log.length < g.slotCount ∧ q.toNat % stampSpan = stampSpan - 1 := by
    constructor
    · intro read
      refine (layered.of_read_ne read).imp_left ?_
      rintro ⟨w, published, retained, same⟩
      exact ⟨w, by omega, published, same⟩
    · rintro (⟨w, retained, published, same⟩ | ⟨room, last⟩)
      · rw [layered.read_of_stamp published (by omega) same]
        exact found_ne_overwritten _
      · rw [fresh room last]
        rintro ⟨⟩
  refine ⟨readable, ?_, fresh, ?_, fun _ => rfl⟩
  · intro w retained published same
    rw [layered.read_of_stamp published (by omega) same,
      layered.read_of_stamp published (by omega) rfl]
    exact ⟨rfl, rfl⟩
  · intro published
    constructor
    · intro gone
      refine Decidable.byContradiction fun retained => ?_
      exact readable.2 (.inl ⟨q.toNat, Nat.le_of_not_lt retained, published, rfl⟩) gone
    · intro lapped
      refine Decidable.byContradiction fun read => ?_
      -- below a span, a sequence with the same stamp is the same sequence
      rcases readable.1 read with ⟨w, retained, below, same⟩ | ⟨room, -⟩
      · rw [Nat.mod_eq_of_lt (by omega), Nat.mod_eq_of_lt (by omega)] at same
        omega
      · omega

/-- **Just the last sequences can be read**, as many as there are slots, and the words that have
their stamps. That holds of a new ring into which any bytes were published, in either mode and fewer
of them than there are stamps, whatever was committed, read and drained meanwhile. -/
theorem window_serveAll (g : Geometry) (requests : List (WriterMode × RingRequest))
    (few : (publications requests).length < stampSpan) (q : UInt64) (extra : Nat) :
    ((empty g).serveAll requests).Window (publications requests) q extra :=
  (layered_serveAll g requests).window few q extra

/-- One entry in two slots: it is read a span ahead too, and just before the span ends the slot that
was never written answers. -/
theorem window_serveAll_one :
    let g := Geometry.twoSlots
    let requests : List (WriterMode × RingRequest) :=
      [(.claimed, .publish [7]), (.single, .commit 1)]
    let ring := (empty g).serveAll requests
    (publications requests).length < stampSpan ∧
      ring.Window (publications requests) 0x8000000000000000 0 ∧
      ring.read 0x8000000000000000 16 = .ready (7 :: List.replicate 13 0) ∧
      ring.read 0x7FFFFFFFFFFFFFFF 16 = .ready (List.replicate headerSize 0) ∧
      ring.read 1 16 = .overwritten :=
  ⟨by decide, window_serveAll .twoSlots _ (by decide) _ 0, by decide, by decide, by decide⟩

end Ring

end LogRelay
