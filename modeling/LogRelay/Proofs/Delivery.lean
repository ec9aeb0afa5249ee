/-
# Delivering to a device that never fails

Between two looks at the published cursor the consumer's loop does one of three things when nobody
else does anything meanwhile: it delivers the oldest record that is left, it rests, or it leaves.
With the binary sink on a device that never fails, a delivery appends the record's bytes to what
the device holds, and a flush appends nothing.

Key definitions: `Device.Reliable`, `Pipeline.iteration`.
Key theorems: `Device.Reliable.writeAll`, `Pipeline.iteration_delivers`, `Pipeline.iteration_rests`,
`Pipeline.iteration_leaves`.
-/
import LogRelay.Drain
import LogRelay.Sink.Binary

namespace LogRelay

/-! ### Devices -/

namespace Device

variable {δ : Type}

/-- A device that never fails: it takes some of what it is offered, or is interrupted, and `view` of
it grows by exactly the bytes taken. -/
structure Reliable (dev : Device δ) (view : δ → Bytes) : Prop where
  write : ∀ d bytes, bytes ≠ [] →
    (∃ n d', 0 < n ∧ n ≤ bytes.length ∧ dev.write d bytes = (.accepted n, d') ∧
      view d' = view d ++ bytes.take n) ∨
    ∃ d', dev.write d bytes = (.interrupted, d') ∧ view d' = view d
  flush : ∀ d, ∃ d', dev.flush d = (.ok (), d') ∧ view d' = view d

/-- A device that never fails takes everything. -/
theorem Reliable.writeAll {dev : Device δ} {view : δ → Bytes} (reliable : dev.Reliable view) (d : δ)
    (bytes : Bytes) :
    ∃ d', dev.writeAll d bytes = (.ok (), d') ∧ view d' = view d ++ bytes := by
  rw [Device.writeAll]
  by_cases nothing : bytes = []
  · rw [if_pos nothing, nothing]
    exact ⟨d, rfl, (List.append_nil _).symm⟩
  · rw [if_neg nothing]
    rcases reliable.write d bytes nothing with ⟨n, d', pos, le, taken, grown⟩ | ⟨d', again, same⟩
    · obtain ⟨count, rfl⟩ : ∃ k, n = k + 1 := Nat.exists_eq_succ_of_ne_zero (Nat.ne_of_gt pos)
      obtain ⟨last, all, whole⟩ := reliable.writeAll d' (bytes.drop (count + 1))
      refine ⟨last, ?_, ?_⟩
      · split
        · next offered => rw [taken] at offered; cases offered
        · next offered => rw [taken] at offered; cases offered; exact all
        · next offered => rw [taken] at offered; cases offered
        · next offered => rw [taken] at offered; cases offered
      · rw [whole, grown, List.append_assoc, List.take_append_drop]
    · obtain ⟨last, all, whole⟩ := reliable.writeAll d' bytes
      refine ⟨last, ?_, by rw [whole, same]⟩
      split
      · next offered => rw [again] at offered; cases offered
      · next offered => rw [again] at offered; cases offered
      · next offered => rw [again] at offered; cases offered; exact all
      · next offered => rw [again] at offered; cases offered
termination_by (bytes.length, dev.patience d)
decreasing_by
  · have : 0 < bytes.length := List.length_pos_iff.2 nothing
    exact Prod.Lex.left _ _ (by rw [List.length_drop]; omega)
  · exact Prod.Lex.right _ (dev.patience_lt _ _ _ again)

end Device

/-! ### The loop between two looks -/

/-- The consumer is about to look at the published cursor, or it is done. -/
def DrainPhase.isTop : DrainPhase → Bool
  | polling | ended _ => true
  | _ => false

namespace Pipeline

variable {σ : Type} {sink : Sink σ} {p : Pipeline σ} {now : UInt64}

/-- Lets the consumer go on until it looks at the published cursor again or is done; `fuel` bounds
its steps. -/
def untilTop (sink : Sink σ) (now : UInt64) : Nat → Pipeline σ → Pipeline σ
  | 0, p => p
  | fuel + 1, p => if p.drain.phase.isTop then p else untilTop sink now fuel (p.step sink now)

/-- One iteration of the consumer's loop, the last one with what follows the loop: never more than
five steps. -/
def iteration (sink : Sink σ) (p : Pipeline σ) (now : UInt64) : Pipeline σ :=
  untilTop sink now 4 (p.step sink now)

/-- The pipeline with its consumer elsewhere. -/
def atDrain (p : Pipeline σ) (drain : Drain) : Pipeline σ := { p with drain := drain }

theorem untilTop_succ (fuel : Nat) (going : p.drain.phase.isTop = false) :
    untilTop sink now (fuel + 1) p = untilTop sink now fuel (p.step sink now) := by
  rw [untilTop, going, if_neg Bool.false_ne_true]

theorem untilTop_of_isTop (fuel : Nat) (top : p.drain.phase.isTop = true) :
    untilTop sink now fuel p = p := by
  cases fuel with
  | zero => rfl
  | succ n => rw [untilTop, top, if_pos rfl]

/-! The steps, each from its own phase. -/

variable {cursor : Nat} {unflushed : Bool} {s : σ}

theorem step_polling_of_lt (behind : cursor < p.channel.ring.published) :
    (p.atDrain ⟨cursor, unflushed, .polling⟩).step sink now =
      p.atDrain ⟨cursor, unflushed, .catchingUp p.channel.ring.published⟩ :=
  if_pos behind

theorem step_polling_of_le (done : p.channel.ring.published ≤ cursor) :
    (p.atDrain ⟨cursor, unflushed, .polling⟩).step sink now =
      p.atDrain ⟨cursor, unflushed, .idling⟩ :=
  if_neg (Nat.not_lt.2 done)

theorem step_catchingUp {published target : Nat}
    (oldest : max (max cursor p.channel.ring.consumed)
      (p.channel.ring.oldestRetained published) = target) (unread : target < published) :
    (p.atDrain ⟨cursor, unflushed, .catchingUp published⟩).step sink now =
      p.atDrain ⟨target, unflushed, .reading⟩ := by
  simp only [step, atDrain, oldest, if_neg (Nat.not_le.2 unread)]

theorem step_reading :
    (p.atDrain ⟨cursor, unflushed, .reading⟩).step sink now = p.atDrain ⟨cursor, unflushed,
      .releasing (p.channel.ring.read cursor p.channel.geometry.slotBytes)⟩ := rfl

theorem step_releasing {found : Ring.Reading} :
    (p.atDrain ⟨cursor, unflushed, .releasing found⟩).step sink now =
      (p.mapRing (·.commit (cursor + 1))).atDrain ⟨cursor, unflushed, .delivering found⟩ := rfl

/-- A record that the sink takes is counted. -/
theorem step_delivering {f : Frame} (decoded : Frame.decode f.bytes = .ok f)
    (taken : sink.write p.sink f = { state := s }) :
    (p.atDrain ⟨cursor, unflushed, .delivering (.ready f.bytes)⟩).step sink now = { p with
      channel := p.channel.countDelivered
      drain := ⟨cursor + 1, true, .polling⟩
      sink := s } := by
  simp only [step, atDrain, deliver, decoded, handOver, taken, accept, List.foldl_nil, mapChannel]

theorem step_idling_of_stopped (stopped : p.channel.running = false) :
    (p.atDrain ⟨cursor, unflushed, .idling⟩).step sink now =
      p.atDrain ⟨cursor, unflushed, .leaving⟩ := by
  simp only [step, atDrain, stopped, Bool.not_false, if_true, enter]

theorem step_idling_of_running (running : p.channel.running = true) :
    (p.atDrain ⟨cursor, unflushed, .idling⟩).step sink now =
      p.atDrain ⟨cursor, unflushed, if unflushed then .flushing else .parked⟩ := by
  simp only [step, atDrain, running, Bool.not_true, Bool.false_eq_true, if_false]
  rfl

theorem step_leaving (done : p.channel.ring.published ≤ cursor) :
    (p.atDrain ⟨cursor, unflushed, .leaving⟩).step sink now =
      p.atDrain ⟨cursor, unflushed, .closing⟩ :=
  congrArg (fun phase => p.atDrain ⟨cursor, unflushed, phase⟩) (if_pos done)

theorem flush_of_ok {drain : Drain} (flushed : sink.flush p.sink = { state := s }) :
    flush sink (p.atDrain drain) now = ({ p with sink := s } : Pipeline σ).atDrain drain := by
  simp only [flush, atDrain, flushed, accept, List.foldl_nil]

theorem step_flushing (flushed : sink.flush p.sink = { state := s }) :
    (p.atDrain ⟨cursor, unflushed, .flushing⟩).step sink now =
      ({ p with sink := s } : Pipeline σ).atDrain ⟨cursor, false, .parked⟩ := by
  have taken : flush sink (p.atDrain ⟨cursor, unflushed, .flushing⟩) now = _ := flush_of_ok flushed
  simp only [atDrain] at taken
  simp only [step, atDrain, taken]

theorem step_parked :
    (p.atDrain ⟨cursor, unflushed, .parked⟩).step sink now =
      p.atDrain ⟨cursor, unflushed, .polling⟩ := rfl

theorem step_closing (flushed : sink.flush p.sink = { state := s }) :
    (p.atDrain ⟨cursor, unflushed, .closing⟩).step sink now = { p with
      channel := { p.channel with finished := true }
      sink := s
      drain := ⟨cursor, unflushed, .ended sink.panicsAtEnd⟩ } := by
  show ((flush sink (p.atDrain ⟨cursor, unflushed, .closing⟩) now).mapChannel fun c =>
    { c with finished := true }).enter (.ended sink.panicsAtEnd) = _
  rw [flush_of_ok flushed]
  rfl

/-! The iterations. -/

/-- A loop that is behind takes the oldest record that is left, gives its slot back and delivers
it. -/
theorem iteration_delivers {f : Frame} {target : Nat}
    (behind : cursor < p.channel.ring.published)
    (oldest : max (max cursor p.channel.ring.consumed)
      (p.channel.ring.oldestRetained p.channel.ring.published) = target)
    (unread : target < p.channel.ring.published)
    (found : p.channel.ring.read target p.channel.geometry.slotBytes = .ready f.bytes)
    (decoded : Frame.decode f.bytes = .ok f) (taken : sink.write p.sink f = { state := s }) :
    (p.atDrain ⟨cursor, unflushed, .polling⟩).iteration sink now = { p with
      channel := Channel.countDelivered { p.channel with
        ring := p.channel.ring.commit (target + 1) }
      drain := ⟨target + 1, true, .polling⟩
      sink := s } := by
  rw [iteration, step_polling_of_lt behind, untilTop_succ _ rfl, step_catchingUp oldest unread,
    untilTop_succ _ rfl, step_reading, found, untilTop_succ _ rfl, step_releasing,
    untilTop_succ _ rfl]
  exact step_delivering decoded taken

/-- A loop that has caught up flushes if anything was delivered since the last flush, and rests. -/
theorem iteration_rests (done : p.channel.ring.published ≤ cursor)
    (running : p.channel.running = true) (flushed : sink.flush p.sink = { state := s }) :
    (p.atDrain ⟨cursor, unflushed, .polling⟩).iteration sink now = { p with
      sink := if unflushed then s else p.sink
      drain := ⟨cursor, false, .polling⟩ } := by
  rw [iteration, step_polling_of_le done, untilTop_succ _ rfl, step_idling_of_running running]
  cases unflushed with
  | true =>
    rw [if_pos rfl, untilTop_succ _ rfl, step_flushing flushed, untilTop_succ _ rfl, step_parked]
    rfl
  | false =>
    rw [if_neg Bool.false_ne_true, untilTop_succ _ rfl, step_parked]
    exact untilTop_of_isTop _ rfl

/-- A loop that has caught up and is told to stop flushes and is done. -/
theorem iteration_leaves (done : p.channel.ring.published ≤ cursor)
    (stopped : p.channel.running = false) (flushed : sink.flush p.sink = { state := s }) :
    (p.atDrain ⟨cursor, unflushed, .polling⟩).iteration sink now = { p with
      channel := { p.channel with finished := true }
      sink := s
      drain := ⟨cursor, unflushed, .ended sink.panicsAtEnd⟩ } := by
  rw [iteration, step_polling_of_le done, untilTop_succ _ rfl, step_idling_of_stopped stopped,
    untilTop_succ _ rfl, step_leaving done, untilTop_succ _ rfl, step_closing flushed]
  exact untilTop_of_isTop _ rfl

end Pipeline

end LogRelay
