/-
# How far the loop is from its end

A loop that is told to stop, and for which nothing is published any more, comes to its end. How many
accesses it makes until then, at the most, is read off its phase and the records that are ahead of
it. Every access makes the number smaller, the two ways back to the top without a record as well.

Key definitions: `DrainPhase.accessesLeft`, `Pipeline.movesLeft`.
Key theorems: `Pipeline.movesLeft_step_lt`, `Pipeline.isEnded_of_movesLeft`.
-/
import LogRelay.Proofs.Accounting

namespace LogRelay

namespace DrainPhase

/-- At most so many accesses are left to a loop that is told to stop, in a phase with `left` records
to go. -/
def accessesLeft (left : Nat) : DrainPhase → Nat
  | .flushing => 5 * left + 6
  | .parked => 5 * left + 5
  | .idling => if left = 0 then 3 else 5 * left + 6
  | .leaving => if left = 0 then 2 else 5 * left + 5
  | .polling => 5 * left + 4
  | .catchingUp _ => 5 * left + 3
  | .reading => 5 * left + 2
  | .releasing _ => 5 * left + 1
  | .delivering _ => 5 * left
  | .closing => 1
  | .ended _ => 0

theorem accessesLeft_le (left : Nat) (phase : DrainPhase) :
    accessesLeft left phase ≤ 5 * left + 6 := by
  cases phase <;> simp only [accessesLeft] <;> (try split) <;> omega

end DrainPhase

namespace Pipeline

variable {σ : Type} {p : Pipeline σ}

/-- At most so many moves are left to a consumer that is told to stop. -/
def movesLeft (p : Pipeline σ) : Nat :=
  p.drain.phase.accessesLeft (p.channel.ring.published - p.drain.cursor)

theorem movesLeft_le (p : Pipeline σ) :
    p.movesLeft ≤ 5 * (p.channel.ring.published - p.drain.cursor) + 6 :=
  DrainPhase.accessesLeft_le _ _

theorem movesLeft_step_of_callsSink (sink : Sink σ) (calls : p.drain.phase.callsSink = true)
    (now : UInt64)
    (same : (p.served sink now).channel.ring.published = p.channel.ring.published) :
    (p.step sink now).movesLeft = (p.drainAfter sink).phase.accessesLeft
      (p.channel.ring.published - (p.drainAfter sink).cursor) := by
  obtain ⟨_, _, _, stepped⟩ := exists_step_eq sink calls now
  rw [stepped, ← same]
  rfl

/-- A loop that is told to stop comes nearer to its end with every step in which the sink publishes
nothing. -/
theorem movesLeft_step_lt (sink : Sink σ) (knows : p.Knows)
    (stopped : p.channel.running = false) (going : p.isEnded = false) (now : UInt64)
    (same : (p.served sink now).channel.ring.published = p.channel.ring.published) :
    (p.step sink now).movesLeft < p.movesLeft := by
  unfold Knows at knows
  have left : p.movesLeft =
    p.drain.phase.accessesLeft (p.channel.ring.published - p.drain.cursor) := rfl
  cases at_ : p.drain.phase with
  | polling =>
    by_cases behind : p.drain.cursor < p.channel.ring.published
    · have stepped : p.step sink now = p.enter (.catchingUp p.channel.ring.published) := by
        simp only [step, at_, if_pos behind]
      rw [stepped, left, at_]
      exact Nat.lt_succ_self _
    · have zero : p.channel.ring.published - p.drain.cursor = 0 := by omega
      have stepped : p.step sink now = p.enter .idling := by
        simp only [step, at_, if_neg behind]
      rw [stepped, left, at_]
      show DrainPhase.accessesLeft (p.channel.ring.published - p.drain.cursor) .idling < _
      rw [zero]
      decide
  | catchingUp snapshot =>
    rw [at_] at knows
    obtain ⟨lt, le⟩ := knows
    obtain ⟨target, def_⟩ : ∃ c, c = max (max p.drain.cursor p.channel.ring.consumed)
      (p.channel.ring.oldestRetained snapshot) := ⟨_, rfl⟩
    by_cases passed : snapshot ≤ target
    · have stepped : p.step sink now =
          { p with drain := ⟨target, p.drain.unflushed, .polling⟩ } := by
        simp only [step, at_, ← def_, if_pos passed]
      rw [stepped, left, at_]
      show 5 * (p.channel.ring.published - target) + 4 <
        5 * (p.channel.ring.published - p.drain.cursor) + 3
      omega
    · have stepped : p.step sink now =
          { p with drain := ⟨target, p.drain.unflushed, .reading⟩ } := by
        simp only [step, at_, ← def_, if_neg passed]
      rw [stepped, left, at_]
      show 5 * (p.channel.ring.published - target) + 2 <
        5 * (p.channel.ring.published - p.drain.cursor) + 3
      omega
  | reading =>
    have stepped : p.step sink now = p.enter (.releasing
        (p.channel.ring.read p.drain.cursor p.channel.geometry.slotBytes)) := by
      simp only [step, at_]
    rw [stepped, left, at_]
    exact Nat.lt_succ_self _
  | releasing found =>
    have stepped : p.step sink now =
        (p.mapRing (·.commit (p.drain.cursor + 1))).enter (.delivering found) := by
      simp only [step, at_]
    rw [stepped, left, at_]
    exact Nat.lt_succ_self _
  | delivering found =>
    rw [at_] at knows
    obtain ⟨lt, -⟩ := knows
    rw [movesLeft_step_of_callsSink sink (by rw [at_]; rfl) now same, drainAfter, left, at_]
    show 5 * (p.channel.ring.published - (p.drain.cursor + 1)) + 4 <
      5 * (p.channel.ring.published - p.drain.cursor)
    omega
  | idling =>
    have stepped : p.step sink now = p.enter .leaving := by
      simp only [step, at_, stopped, Bool.not_false, if_true]
    rw [stepped, left, at_]
    show DrainPhase.accessesLeft (p.channel.ring.published - p.drain.cursor) .leaving < _
    simp only [DrainPhase.accessesLeft]
    split <;> omega
  | leaving =>
    by_cases done : p.channel.ring.published ≤ p.drain.cursor
    · have stepped : p.step sink now = p.enter .closing := by
        simp only [step, at_, if_pos done]
      rw [stepped, left, at_]
      show 1 < if p.channel.ring.published - p.drain.cursor = 0 then 2 else _
      split <;> omega
    · have more : ¬ p.channel.ring.published - p.drain.cursor = 0 := by omega
      have stepped : p.step sink now = p.enter .polling := by
        simp only [step, at_, if_neg done]
      rw [stepped, left, at_, DrainPhase.accessesLeft, if_neg more]
      exact Nat.lt_succ_self _
  | flushing =>
    rw [movesLeft_step_of_callsSink sink (by rw [at_]; rfl) now same, drainAfter, left, at_]
    exact Nat.lt_succ_self _
  | parked =>
    have stepped : p.step sink now = p.enter .polling := by
      simp only [step, at_]
    rw [stepped, left, at_]
    exact Nat.lt_succ_self _
  | closing =>
    rw [movesLeft_step_of_callsSink sink (by rw [at_]; rfl) now same, drainAfter, left, at_]
    exact Nat.zero_lt_one
  | ended panicked =>
    rw [isEnded, at_] at going
    cases going

/-- A loop that has no moves left is at its end. -/
theorem isEnded_of_movesLeft (knows : p.Knows) (none : p.movesLeft = 0) :
    p.isEnded = true := by
  unfold Knows at knows
  unfold movesLeft at none
  cases at_ : p.drain.phase with
  | ended panicked => rw [isEnded, at_]
  | delivering found =>
    rw [at_] at knows none
    have lt := knows.1
    simp only [DrainPhase.accessesLeft] at none
    omega
  | idling | leaving =>
    rw [at_] at none
    simp only [DrainPhase.accessesLeft] at none
    split at none <;> omega
  | _ =>
    rw [at_] at none
    simp only [DrainPhase.accessesLeft] at none
    omega

theorem movesLeft_of_isEnded (ended : p.isEnded = true) : p.movesLeft = 0 := by
  unfold isEnded at ended
  unfold movesLeft
  cases at_ : p.drain.phase with
  | ended panicked => rfl
  | _ =>
    rw [at_] at ended
    cases ended

end Pipeline

end LogRelay
