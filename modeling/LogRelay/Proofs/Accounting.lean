/-
# Keeping account of records

Every published record is to be counted once: as a loss when a writer needs its slot, or with the
fate it meets when the consumer takes it. Writers count by the shared cursor, which they push over
what they give up; the consumer counts by its own, and gives the slot back only after it has copied
the record out. In between, from the moment the loop has chosen a record until it gives the slot
back, writers that need the slot give up a record that the loop counts as well.

The balance of a pipeline therefore has a term of its own for such records, `overlap`, and one for
the record that the loop is busy with, `held`. The balance is the same for all sequences of steps;
only what is published in that short time adds to the overlap.

Nothing is assumed of the published bytes, which need not be encodings.

Key definitions: `Tally.answered`, `Pipeline.chosen?`, `Pipeline.held`, `Pipeline.Accounts`.
Key theorems: `Pipeline.Accounts.fed`, `Pipeline.Accounts.step`, `Pipeline.accounts_start`.
-/
import LogRelay.Proofs.Feeding

namespace LogRelay

namespace Tally

/-- All records that the consumer is done with. -/
def answered (t : Tally) : Nat := t.delivered + t.sinkFailures + t.decodeFailures + t.skipped

theorem answered_enter (t : Tally) (fate : Fate) : (t.enter fate).answered = t.answered + 1 := by
  cases fate <;> simp only [enter, answered] <;> omega

theorem skipped_enter (t : Tally) (fate : Fate) :
    (t.enter fate).skipped = t.skipped + if fate = .overwritten then 1 else 0 := by
  cases fate <;> rfl

end Tally

/-- A record that is found to be gone was overtaken by a whole round. -/
theorem Ring.Keeps.lapped_of_read {g : Geometry} {ring : Ring g} {log : List Bytes} {seq room : Nat}
    (keeps : ring.Keeps log) (published : seq < ring.published)
    (gone : ring.read seq room = .overwritten) : seq + g.slotCount < ring.published := by
  rw [keeps.published] at published ⊢
  refine Decidable.byContradiction fun near => ?_
  have held := keeps.holds seq published (by omega)
  rw [Ring.read] at gone
  simp only [held.1, ne_eq, not_true_eq_false, if_false] at gone
  split at gone
  · cases gone
  · cases gone

namespace Pipeline

variable {σ : Type} {sink : Sink σ} {p p' : Pipeline σ} {log more : List Bytes} {overlap : Nat}

/-! ### The balance -/

/-- The record that the loop has chosen and not given back yet. -/
def chosen? (p : Pipeline σ) : Option Nat :=
  match p.drain.phase with
  | .reading | .releasing _ => some p.drain.cursor
  | _ => none

/-- Every sequence below was given back by the loop. -/
def floor (p : Pipeline σ) : Nat :=
  match p.drain.phase with
  | .delivering _ => p.drain.cursor + 1
  | _ => p.drain.cursor

/-- One if the shared cursor is past the record that the loop is busy with. -/
def held (p : Pipeline σ) : Nat :=
  match p.drain.phase with
  | .reading | .releasing _ => if p.drain.cursor < p.channel.ring.consumed then 1 else 0
  | .delivering _ => 1
  | _ => 0

/-- One if the record that the loop is busy with was given up as well and may prove to be gone. -/
def atRisk (p : Pipeline σ) : Nat :=
  match p.drain.phase with
  | .delivering found => if found = .overwritten then 1 else 0
  | _ => p.held

/-- The loop is busy with a record. -/
def isBusy (p : Pipeline σ) : Bool :=
  match p.drain.phase with
  | .reading | .releasing _ | .delivering _ => true
  | _ => false

theorem idle_of_not_isBusy (idle : p.isBusy = false) :
    p.floor = p.drain.cursor ∧ p.held = 0 ∧ p.atRisk = 0 ∧ p.chosen? = none := by
  unfold isBusy at idle
  unfold floor atRisk held chosen?
  cases at_ : p.drain.phase with
  | reading | releasing found | delivering found =>
    rw [at_] at idle
    cases idle
  | _ => exact ⟨rfl, rfl, rfl, rfl⟩

/-- The loop was left. -/
def hasLeft (p : Pipeline σ) : Bool :=
  match p.drain.phase with
  | .closing | .ended _ => true
  | _ => false

/-- The loop was told to stop and has seen it. -/
def isLeaving (p : Pipeline σ) : Bool :=
  match p.drain.phase with
  | .leaving | .closing | .ended _ => true
  | _ => false

theorem left_of_isEnded (ended : p.isEnded = true) : p.hasLeft = true ∧ p.isBusy = false := by
  unfold isEnded at ended
  unfold hasLeft isBusy
  split at ended
  · next at_ => rw [at_]; exact ⟨rfl, rfl⟩
  · cases ended

/-- What the loop knows in a phase. -/
def Knows (p : Pipeline σ) : Prop :=
  match p.drain.phase with
  | .catchingUp published =>
    p.drain.cursor < published ∧ published ≤ p.channel.ring.published
  | .reading => p.drain.cursor < p.channel.ring.published
  | .releasing found | .delivering found =>
    p.drain.cursor < p.channel.ring.published ∧ (found = .overwritten →
      p.drain.cursor + p.channel.geometry.slotCount < p.channel.ring.published)
  | _ => True

/-- **The accounts of a pipeline** whose ring was published to with the records of `log`, and in
which `overlap` of them were given up while the loop was busy with them. -/
structure Accounts (p : Pipeline σ) (log : List Bytes) (overlap : Nat) : Prop where
  keeps : p.channel.ring.Keeps log
  within : p.channel.ring.Within
  floor_le : p.floor ≤ p.channel.ring.consumed
  /-- Where the shared cursor is ahead of the loop's own, writers have pushed it. -/
  gap : p.channel.ring.consumed ≤ p.floor ∨
    p.channel.ring.consumed + p.channel.geometry.slotCount ≤ p.channel.ring.published
  knows : p.Knows
  balance : p.channel.ring.consumed + overlap =
    p.channel.ring.overflowed + p.channel.tally.answered + p.held
  /-- Only records that were given up as well are found to be gone. -/
  skipped_le : p.channel.tally.skipped + p.atRisk ≤ overlap

/-! ### Publishing -/

/-- **Publishing keeps the balance.** It adds to the overlap exactly if it gives up the record that
the loop has chosen. -/
theorem Accounts.fed (accounts : p.Accounts log overlap) (fed : p.channel.Fed log more p'.channel)
    (drain : p'.drain = p.drain) (tally : p'.channel.tally = p.channel.tally) :
    p'.Accounts (log ++ more) (overlap + (p'.held - p.held)) := by
  obtain ⟨keeps, within, floor_le, gap, knows, balance, skipped_le⟩ := accounts
  have slots : p'.channel.geometry.slotCount = p.channel.geometry.slotCount :=
    congrArg Geometry.slotCount fed.geometry
  have count := fed.keeps.published
  have grown : p.channel.ring.published ≤ p'.channel.ring.published := by
    rw [count, keeps.published, List.length_append]
    exact Nat.le_add_right _ _
  have moved := fed.consumed
  have losses := fed.overflowed
  rw [← count] at moved
  have window := within.published_le
  have floor : p'.floor = p.floor := by rw [Pipeline.floor, Pipeline.floor, drain]
  have held : p.held ≤ p'.held := by
    unfold Pipeline.held
    rw [drain]
    split
    · split <;> split <;> omega
    · split <;> split <;> omega
    · exact Nat.le_refl _
    · exact Nat.le_refl _
  have risk : p'.atRisk ≤ p.atRisk + (p'.held - p.held) := by
    unfold atRisk
    rw [drain]
    split <;> omega
  refine ⟨fed.keeps, fed.within, by omega, ?_, ?_, ?_, ?_⟩
  · rcases gap with behind | ahead <;> omega
  · unfold Knows at knows ⊢
    rw [drain]
    cases at_ : p.drain.phase with
    | catchingUp snapshot =>
      rw [at_] at knows
      obtain ⟨lt, le⟩ := knows
      exact ⟨lt, by omega⟩
    | reading =>
      rw [at_] at knows
      exact Nat.lt_of_lt_of_le knows grown
    | releasing found | delivering found =>
      rw [at_] at knows
      obtain ⟨lt, lapped⟩ := knows
      exact ⟨by omega, fun gone => by have := lapped gone; omega⟩
    | _ => trivial
  · rw [tally]
    omega
  · rw [tally]
    omega

theorem held_eq_of_chosen (drain : p'.drain = p.drain) (none : p.chosen? = none) :
    p'.held = p.held := by
  unfold held
  unfold chosen? at none
  rw [drain]
  cases at_ : p.drain.phase with
  | reading | releasing found =>
    rw [at_] at none
    cases none
  | _ => rfl

theorem chosen?_of_callsSink (calls : p.drain.phase.callsSink = true) : p.chosen? = none := by
  unfold chosen?
  cases at_ : p.drain.phase with
  | reading | releasing found =>
    rw [at_] at calls
    cases calls
  | _ => rfl

theorem Accounts.retuned (accounts : p.Accounts log overlap) (threshold : Severity)
    (running : Bool) (notices : List Notice) :
    (p.mapChannel fun c => { c with threshold, running, notices }).Accounts log overlap := by
  obtain ⟨keeps, within, floor_le, gap, knows, balance, skipped_le⟩ := accounts
  exact ⟨keeps, within, floor_le, gap, knows, balance, skipped_le⟩

/-! ### The loop -/

theorem Accounts.turn (accounts : p.Accounts log overlap) {unflushed : Bool} {phase : DrainPhase}
    (here : p.isBusy = false)
    (there : ({ p with drain := ⟨p.drain.cursor, unflushed, phase⟩ } : Pipeline σ).isBusy = false)
    (knows : ({ p with drain := ⟨p.drain.cursor, unflushed, phase⟩ } : Pipeline σ).Knows) :
    ({ p with drain := ⟨p.drain.cursor, unflushed, phase⟩ } : Pipeline σ).Accounts log overlap := by
  obtain ⟨keeps, within, floor_le, gap, -, balance, skipped_le⟩ := accounts
  obtain ⟨floor, held, risk, -⟩ := idle_of_not_isBusy here
  obtain ⟨floor', held', risk', -⟩ := idle_of_not_isBusy there
  rw [floor] at floor_le gap
  rw [held] at balance
  rw [risk] at skipped_le
  refine ⟨keeps, within, ?_, ?_, knows, ?_, ?_⟩
  · rw [floor']
    exact floor_le
  · rw [floor']
    exact gap
  · rw [held']
    exact balance
  · rw [risk']
    exact skipped_le

theorem givenNext_of_not_callsSink (quiet : p.drain.phase.callsSink = false) (now : UInt64) :
    p.givenNext sink now = [] := by
  unfold givenNext reply?
  cases at_ : p.drain.phase with
  | delivering found | flushing | closing =>
    rw [at_] at quiet
    cases quiet
  | _ => rfl

/-- A loop that neither is busy nor moves over what is lost goes on to another phase. It leaves only
if it was told to stop and has reached the end of the ring. -/
theorem exists_step_idle (sink : Sink σ) (idle : p.isBusy = false)
    (quiet : p.drain.phase.callsSink = false)
    (stays : ∀ published, p.drain.phase ≠ .catchingUp published) (now : UInt64) :
    ∃ unflushed phase, p.step sink now = { p with drain := ⟨p.drain.cursor, unflushed, phase⟩ } ∧
      ({ p with drain := ⟨p.drain.cursor, unflushed, phase⟩ } : Pipeline σ).isBusy = false ∧
      ({ p with drain := ⟨p.drain.cursor, unflushed, phase⟩ } : Pipeline σ).Knows ∧
      (({ p with drain := ⟨p.drain.cursor, unflushed, phase⟩ } : Pipeline σ).hasLeft = true →
        p.hasLeft = true ∨ phase = .closing ∧ p.channel.ring.published ≤ p.drain.cursor) ∧
      (({ p with drain := ⟨p.drain.cursor, unflushed, phase⟩ } : Pipeline σ).isLeaving = true →
        p.isLeaving = true ∨ p.channel.running = false) ∧
      ({ p with drain := ⟨p.drain.cursor, unflushed, phase⟩ } : Pipeline σ).isEnded =
        p.isEnded := by
  cases at_ : p.drain.phase with
  | catchingUp published => exact absurd at_ (stays published)
  | delivering found | flushing | closing =>
    rw [at_] at quiet
    cases quiet
  | reading | releasing found =>
    rw [isBusy, at_] at idle
    cases idle
  | polling =>
    have here : p.isEnded = false := by rw [isEnded, at_]
    by_cases behind : p.drain.cursor < p.channel.ring.published
    · refine ⟨p.drain.unflushed, .catchingUp p.channel.ring.published, ?_, rfl,
        ⟨behind, Nat.le_refl _⟩, ?_, ?_, here.symm⟩
      · simp only [step, at_, if_pos behind]
        rfl
      · rintro ⟨⟩
      · rintro ⟨⟩
    · refine ⟨p.drain.unflushed, .idling, ?_, rfl, trivial, ?_, ?_, here.symm⟩
      · simp only [step, at_, if_neg behind]
        rfl
      · rintro ⟨⟩
      · rintro ⟨⟩
  | idling =>
    have here : p.isEnded = false := by rw [isEnded, at_]
    cases running : p.channel.running with
    | false =>
      refine ⟨p.drain.unflushed, .leaving, ?_, rfl, trivial, ?_, fun _ => .inr rfl, here.symm⟩
      · simp only [step, at_, running]
        rfl
      · rintro ⟨⟩
    | true =>
      cases unflushed : p.drain.unflushed with
      | false =>
        refine ⟨p.drain.unflushed, .parked, ?_, rfl, trivial, ?_, ?_, here.symm⟩
        · simp only [step, at_, running, unflushed, enter]
          rfl
        · rintro ⟨⟩
        · rintro ⟨⟩
      | true =>
        refine ⟨p.drain.unflushed, .flushing, ?_, rfl, trivial, ?_, ?_, here.symm⟩
        · simp only [step, at_, running, unflushed, enter]
          rfl
        · rintro ⟨⟩
        · rintro ⟨⟩
  | leaving =>
    have here : p.isEnded = false := by rw [isEnded, at_]
    by_cases done : p.channel.ring.published ≤ p.drain.cursor
    · refine ⟨p.drain.unflushed, .closing, ?_, rfl, trivial, fun _ => .inr ⟨rfl, done⟩,
        fun _ => .inl (by rw [isLeaving, at_]), here.symm⟩
      simp only [step, at_, if_pos done]
      rfl
    · refine ⟨p.drain.unflushed, .polling, ?_, rfl, trivial, ?_, ?_, here.symm⟩
      · simp only [step, at_, if_neg done]
        rfl
      · rintro ⟨⟩
      · rintro ⟨⟩
  | parked =>
    have here : p.isEnded = false := by rw [isEnded, at_]
    refine ⟨p.drain.unflushed, .polling, ?_, rfl, trivial, ?_, ?_, here.symm⟩
    · simp only [step, at_]
      rfl
    · rintro ⟨⟩
    · rintro ⟨⟩
  | ended panicked =>
    have here : p.isEnded = true := by rw [isEnded, at_]
    refine ⟨p.drain.unflushed, p.drain.phase, p.step_ended sink now here, idle, ?_,
      fun _ => .inl (by rw [hasLeft, at_]), fun _ => .inl (by rw [isLeaving, at_]), rfl⟩
    simp only [Knows, at_]

theorem channel_step_eq (quiet : p.drain.phase.callsSink = false)
    (keeps : ∀ found, p.drain.phase ≠ .releasing found) (now : UInt64) :
    (p.step sink now).channel = p.channel := by
  cases at_ : p.drain.phase with
  | releasing found => exact absurd at_ (keeps found)
  | delivering found | flushing | closing =>
    rw [at_] at quiet
    cases quiet
  | catchingUp published | reading => simp only [step, at_, enter]
  | polling | idling | leaving | parked | ended panicked =>
    have idle : p.isBusy = false := by rw [isBusy, at_]
    obtain ⟨unflushed, phase, stepped, -⟩ :=
      exists_step_idle sink idle quiet (by rw [at_]; rintro _ ⟨⟩) now
    rw [stepped]

theorem step_spares (sink : Sink σ) (p : Pipeline σ) (now : UInt64) :
    (p.step sink now).channel.geometry = p.channel.geometry ∧
      (p.step sink now).channel.threshold = p.channel.threshold ∧
      (p.step sink now).channel.running = p.channel.running ∧
      (p.step sink now).channel.writeReports = (p.served sink now).channel.writeReports := by
  obtain ⟨written, -⟩ := p.served_spares sink now
  cases at_ : p.drain.phase with
  | delivering found | flushing | closing =>
    obtain ⟨_, _, _, stepped⟩ := exists_step_eq sink (by rw [at_]; rfl) now
    rw [stepped]
    exact ⟨written.geometry, written.threshold, written.running, rfl⟩
  | releasing found =>
    simp only [step, served, reply?, at_, Option.elim]
    exact ⟨rfl, rfl, rfl, rfl⟩
  | polling | catchingUp published | reading | idling | leaving | parked | ended panicked =>
    rw [channel_step_eq (by rw [at_]; rfl) (by rw [at_]; rintro _ ⟨⟩)]
    simp only [served, reply?, at_, Option.elim]
    exact ⟨trivial, trivial, trivial, trivial⟩

/-- The loop moves its cursor to the shared one, over what is lost, and chooses the record there if
there is one. -/
theorem Accounts.exists_catchingUp_eq (accounts : p.Accounts log overlap) (sink : Sink σ)
    {published : Nat} (at_ : p.drain.phase = .catchingUp published) (now : UInt64) :
    ∃ phase, p.step sink now =
        { p with drain := ⟨p.channel.ring.consumed, p.drain.unflushed, phase⟩ } ∧
      (phase = .polling ∨
        phase = .reading ∧ p.channel.ring.consumed < p.channel.ring.published) := by
  have knows := accounts.knows
  have floor_le := accounts.floor_le
  have window := accounts.within.published_le
  simp only [Knows, floor, at_] at knows floor_le
  obtain ⟨lt, le⟩ := knows
  -- the shared cursor is the greatest of the three
  have target : max (max p.drain.cursor p.channel.ring.consumed)
      (p.channel.ring.oldestRetained published) = p.channel.ring.consumed := by
    rw [Ring.oldestRetained]
    omega
  by_cases caughtUp : published ≤ p.channel.ring.consumed
  · exact ⟨.polling, by simp only [step, at_, target, if_pos caughtUp], .inl rfl⟩
  · exact ⟨.reading, by simp only [step, at_, target, if_neg caughtUp], .inr ⟨rfl, by omega⟩⟩

theorem Accounts.catchUp (accounts : p.Accounts log overlap) {published : Nat}
    (at_ : p.drain.phase = .catchingUp published) (now : UInt64) :
    (p.step sink now).Accounts log overlap := by
  obtain ⟨phase, stepped, next⟩ := accounts.exists_catchingUp_eq sink at_ now
  obtain ⟨keeps, within, floor_le, gap, -, balance, skipped_le⟩ := accounts
  simp only [atRisk, held, at_] at skipped_le balance
  rw [stepped]
  rcases next with rfl | ⟨rfl, unread⟩
  · exact ⟨keeps, within, Nat.le_refl _, .inl (Nat.le_refl _), trivial, balance, skipped_le⟩
  · have here : ¬ p.channel.ring.consumed < p.channel.ring.consumed := Nat.lt_irrefl _
    refine ⟨keeps, within, Nat.le_refl _, .inl (Nat.le_refl _), unread, ?_, ?_⟩
    · simp only [held, if_neg here]
      exact balance
    · simp only [atRisk, held, if_neg here]
      exact skipped_le

/-- Giving the slot back counts the record as one that is in the loop's hands, unless writers have
given it up. -/
theorem Accounts.release (accounts : p.Accounts log overlap) {found : Ring.Reading}
    (at_ : p.drain.phase = .releasing found) (now : UInt64) :
    (p.step sink now).Accounts log overlap := by
  obtain ⟨keeps, within, floor_le, gap, knows, balance, skipped_le⟩ := accounts
  simp only [Knows, floor, atRisk, held, at_] at knows floor_le gap skipped_le balance
  obtain ⟨lt, lapped⟩ := knows
  have window := within.published_le
  simp only [step, at_]
  refine ⟨keeps.commit _, within.commit lt, ?_, ?_, ⟨lt, lapped⟩, ?_, ?_⟩
  · show p.drain.cursor + 1 ≤ max p.channel.ring.consumed (p.drain.cursor + 1)
    omega
  · show max p.channel.ring.consumed (p.drain.cursor + 1) ≤ p.drain.cursor + 1 ∨
      max p.channel.ring.consumed (p.drain.cursor + 1) + p.channel.geometry.slotCount ≤
        p.channel.ring.published
    rcases gap with behind | ahead <;> omega
  · show max p.channel.ring.consumed (p.drain.cursor + 1) + overlap =
      p.channel.ring.overflowed + p.channel.tally.answered + 1
    split at balance <;> omega
  · show p.channel.tally.skipped + (if found = .overwritten then 1 else 0) ≤ overlap
    by_cases gone : found = .overwritten
    · have past := lapped gone
      rw [if_pos (by omega)] at skipped_le
      rwa [if_pos gone]
    · rw [if_neg gone]
      omega

theorem fate_eq_overwritten_iff (sink : Sink σ) (p : Pipeline σ) (found : Ring.Reading) :
    p.fate sink found = .overwritten ↔ found = .overwritten := by
  unfold fate
  split
  · exact iff_of_true rfl rfl
  · simp
  · split
    · simp
    · split <;> simp

/-- **A step that calls the sink keeps the balance.** What the sink publishes is not contested, and
a fate is counted for the record in the loop's hands. -/
theorem Accounts.call (never : sink.NeverCommits) (accounts : p.Accounts log overlap)
    (calls : p.drain.phase.callsSink = true) (now : UInt64) :
    (p.step sink now).Accounts (log ++ p.givenNext sink now) overlap := by
  obtain ⟨written, same, -⟩ := p.served_spares sink now
  have served := accounts.fed (fed_served never accounts.keeps accounts.within now) same
    written.tally
  rw [held_eq_of_chosen same (chosen?_of_callsSink calls), Nat.sub_self, Nat.add_zero] at served
  obtain ⟨keeps, within, floor_le, gap, -, balance, skipped_le⟩ := served
  obtain ⟨sinkReports, decodeReports, notices, stepped⟩ := exists_step_eq sink calls now
  rw [stepped]
  rw [written.tally] at balance skipped_le
  unfold floor at floor_le gap
  unfold held at balance
  unfold atRisk held at skipped_le
  rw [same] at floor_le gap balance skipped_le
  cases at_ : p.drain.phase with
  | delivering found =>
    simp only [at_] at floor_le gap balance skipped_le
    simp only [drainAfter, tallyAfter, fate?, finishedAfter, at_, Option.elim]
    refine ⟨keeps, within, floor_le, gap, trivial, ?_, ?_⟩
    · show _ = _ + (p.channel.tally.enter _).answered + 0
      rw [Tally.answered_enter]
      exact balance
    · show (p.channel.tally.enter _).skipped + 0 ≤ _
      rw [Tally.skipped_enter]
      simp only [fate_eq_overwritten_iff]
      exact skipped_le
  | flushing | closing =>
    simp only [at_] at floor_le gap balance skipped_le
    simp only [drainAfter, tallyAfter, fate?, finishedAfter, at_, Option.elim]
    exact ⟨keeps, within, floor_le, gap, trivial, balance, skipped_le⟩
  | polling | catchingUp published | reading | releasing found | idling | leaving | parked
  | ended panicked =>
    rw [at_] at calls
    cases calls

/-- **A step of the loop keeps the balance**, whatever the sink publishes in it. -/
theorem Accounts.step (never : sink.NeverCommits) (accounts : p.Accounts log overlap)
    (now : UInt64) : (p.step sink now).Accounts (log ++ p.givenNext sink now) overlap := by
  have quiet : p.drain.phase.callsSink = false → log ++ p.givenNext sink now = log := by
    intro quiet
    rw [givenNext_of_not_callsSink quiet, List.append_nil]
  cases at_ : p.drain.phase with
  | catchingUp published =>
    rw [quiet (by rw [at_]; rfl)]
    exact accounts.catchUp at_ now
  | releasing found =>
    rw [quiet (by rw [at_]; rfl)]
    exact accounts.release at_ now
  | delivering found | flushing | closing => exact accounts.call never (by rw [at_]; rfl) now
  | reading =>
    rw [quiet (by rw [at_]; rfl)]
    obtain ⟨keeps, within, floor_le, gap, knows, balance, skipped_le⟩ := accounts
    simp only [Knows, floor, atRisk, held, at_] at knows floor_le gap skipped_le balance
    simp only [Pipeline.step, at_]
    exact ⟨keeps, within, floor_le, gap, ⟨knows, keeps.lapped_of_read knows⟩, balance, skipped_le⟩
  | polling | idling | leaving | parked | ended panicked =>
    rw [quiet (by rw [at_]; rfl)]
    have idle : p.isBusy = false := by rw [isBusy, at_]
    obtain ⟨unflushed, phase, stepped, there, knows, -⟩ :=
      exists_step_idle sink idle (by rw [at_]; rfl) (by rw [at_]; rintro _ ⟨⟩) now
    rw [stepped]
    exact accounts.turn idle there knows

/-! ### Beginnings and ends -/

/-- The loop is left only at the end of the ring, and then it is about to flush. -/
theorem Accounts.of_step_left (accounts : p.Accounts log overlap) {now : UInt64}
    (inside : p.hasLeft = false) (left : (p.step sink now).hasLeft = true) :
    p.channel.ring.published ≤ p.drain.cursor ∧
      ∃ unflushed, p.step sink now = { p with drain := ⟨p.drain.cursor, unflushed, .closing⟩ } := by
  cases at_ : p.drain.phase with
  | delivering found | flushing =>
    obtain ⟨_, _, _, stepped⟩ := exists_step_eq sink (by rw [at_]; rfl) now
    simp only [hasLeft, stepped, drainAfter, at_, Bool.false_eq_true] at left
  | reading | releasing found =>
    simp only [hasLeft, Pipeline.step, at_, enter, Bool.false_eq_true] at left
  | catchingUp published =>
    obtain ⟨phase, stepped, next⟩ := accounts.exists_catchingUp_eq sink at_ now
    rw [hasLeft, stepped] at left
    rcases next with rfl | ⟨rfl, -⟩ <;> cases left
  | closing =>
    rw [hasLeft, at_] at inside
    cases inside
  | polling | idling | leaving | parked | ended panicked =>
    have idle : p.isBusy = false := by rw [isBusy, at_]
    obtain ⟨unflushed, phase, stepped, -, -, leaves, -⟩ :=
      exists_step_idle sink idle (by rw [at_]; rfl) (by rw [at_]; rintro _ ⟨⟩) now
    rw [stepped] at left ⊢
    rcases leaves left with earlier | ⟨rfl, done⟩
    · cases inside.symm.trans earlier
    · exact ⟨done, unflushed, rfl⟩

theorem Accounts.settled_step (never : sink.NeverCommits) (accounts : p.Accounts log overlap)
    (now : UInt64) (silent : p.hasLeft = true → p.givenNext sink now = [])
    (settled : p.hasLeft = true → p.channel.ring.published ≤ p.drain.cursor)
    (left : (p.step sink now).hasLeft = true) :
    (p.step sink now).channel.ring.published ≤ (p.step sink now).drain.cursor := by
  cases here : p.hasLeft with
  | false =>
    obtain ⟨done, _, stepped⟩ := accounts.of_step_left here left
    rw [stepped]
    exact done
  | true =>
    cases at_ : p.drain.phase with
    | closing =>
      have calls : p.drain.phase.callsSink = true := by rw [at_]; rfl
      have called := (accounts.call never calls now).keeps.published
      obtain ⟨_, _, _, stepped⟩ := exists_step_eq sink calls now
      have cursor : (p.step sink now).drain.cursor = p.drain.cursor := by
        simp only [stepped, drainAfter, at_]
      rw [called, silent here, List.append_nil, ← accounts.keeps.published, cursor]
      exact settled here
    | ended panicked =>
      rw [p.step_ended sink now (by rw [isEnded, at_])]
      exact settled here
    | _ =>
      rw [hasLeft, at_] at here
      cases here

theorem accounts_start {c : Channel} (keeps : c.ring.Keeps log) (within : c.ring.Within)
    (balance : c.ring.consumed = c.ring.overflowed + c.tally.answered)
    (none : c.tally.skipped = 0) (state : σ) : (start c state).Accounts log 0 where
  keeps := keeps
  within := within
  floor_le := Nat.le_refl _
  gap := .inl (Nat.le_refl _)
  knows := trivial
  balance := balance
  skipped_le := Nat.le_of_eq none

/-- Once the loop is not busy and has reached the end of the ring, every record is counted, the ones
of the overlap twice. -/
theorem Accounts.drained (accounts : p.Accounts log overlap) (idle : p.isBusy = false)
    (done : p.channel.ring.published ≤ p.drain.cursor) :
    p.channel.ring.consumed = p.channel.ring.published ∧
      p.channel.ring.published + overlap =
        p.channel.ring.overflowed + p.channel.tally.answered := by
  obtain ⟨floor, held, -⟩ := idle_of_not_isBusy idle
  have lower := accounts.floor_le
  have upper := accounts.within.consumed_le
  have balance := accounts.balance
  omega

end Pipeline

end LogRelay
