/-
# Consumers that come and go

A ring outlives its consumers: one runs to its end, records are published meanwhile or afterwards,
and another begins where the shared cursor is. A sink may publish into the ring that feeds it while
it is handed a record, in either mode, as much as it likes and far more than the ring holds.

As long as nobody else publishes while a consumer runs, no record is counted twice and none is found
to be gone. After every operation the records that were published are those that were answered for,
those that were lost and those that are unread, and a run ends with none unread. No sequence is read
twice, by whichever run: each run begins where the last one stopped, or at the oldest record that is
left if that one is lost.

Key definitions: `Reader`, `Reader.run`, `Station`, `Station.Reached`, `Station.Conserved`.
Key theorems: `Reader.Inv.next`, `Reader.Inv.drained`, `Station.conserved_of_reached`.
-/
import LogRelay.Proofs.Accounting

namespace LogRelay

/-! ### One run -/

/-- A consumer at work, with the sequences that it read. -/
structure Reader (σ : Type) where
  pipeline : Pipeline σ
  reads : List Nat := []

/-- What may happen while a consumer runs. -/
inductive ReaderEvent
  /-- It makes its next access, at a clock reading. -/
  | access (now : UInt64)
  /-- It is told to stop. -/
  | stop

/-- A sink publishes nothing when it is flushed. -/
def Sink.FlushesQuietly {σ : Type} (sink : Sink σ) : Prop := ∀ s, (sink.flush s).acts = []

namespace Reader

variable {σ : Type} {sink : Sink σ} {r : Reader σ}

/-- The consumer after one more event. -/
def next (sink : Sink σ) (r : Reader σ) : ReaderEvent → Reader σ
  | .access now =>
    { pipeline := r.pipeline.step sink now
      reads :=
        match r.pipeline.drain.phase with
        | .reading => r.reads ++ [r.pipeline.drain.cursor]
        | _ => r.reads }
  | .stop => { r with pipeline := r.pipeline.stop }

/-- The consumer after some more events. -/
def run (sink : Sink σ) (r : Reader σ) (events : List ReaderEvent) : Reader σ :=
  events.foldl (next sink) r

/-- Every sequence below was read or passed over. -/
def edge (r : Reader σ) : Nat :=
  match r.pipeline.drain.phase with
  | .releasing _ | .delivering _ => r.pipeline.drain.cursor + 1
  | _ => r.pipeline.drain.cursor

/-- **The invariant of a run** that began at sequence `first`. -/
structure Inv (first : Nat) (r : Reader σ) : Prop where
  accounts : ∃ log, r.pipeline.Accounts log 0
  reads_ge : ∀ s ∈ r.reads, first ≤ s
  reads_lt : ∀ s ∈ r.reads, s < r.edge
  ordered : r.reads.Pairwise (· < ·)
  first_le : first ≤ r.pipeline.drain.cursor
  settled : r.pipeline.hasLeft = true →
    r.pipeline.channel.ring.published ≤ r.pipeline.drain.cursor

/-- A loop that was left has nothing more published by its sink. -/
theorem givenNext_of_hasLeft (quiet : sink.FlushesQuietly) {p : Pipeline σ}
    (left : p.hasLeft = true) (now : UInt64) : p.givenNext sink now = [] := by
  unfold Pipeline.hasLeft at left
  unfold Pipeline.givenNext Pipeline.reply?
  cases at_ : p.drain.phase with
  | closing =>
    show ({ p with sink := (sink.flush p.sink).state } : Pipeline σ).givenAll now _ = []
    rw [quiet p.sink]
    rfl
  | ended panicked => rfl
  | _ =>
    rw [at_] at left
    cases left

theorem cursor_le_edge (r : Reader σ) : r.pipeline.drain.cursor ≤ r.edge := by
  unfold edge
  split <;> omega

theorem edge_of_not_isBusy (idle : r.pipeline.isBusy = false) :
    r.edge = r.pipeline.drain.cursor := by
  unfold Pipeline.isBusy at idle
  unfold edge
  cases at_ : r.pipeline.drain.phase with
  | releasing found | delivering found =>
    rw [at_] at idle
    cases idle
  | _ => rfl

theorem Inv.moves {first : Nat} (inv : Inv first r) (sink : Sink σ) (now : UInt64) :
    r.pipeline.drain.cursor ≤ (r.pipeline.step sink now).drain.cursor ∧
      r.edge ≤ (r.next sink (.access now)).edge := by
  obtain ⟨log, accounts⟩ := inv.accounts
  have floor_le := accounts.floor_le
  have later := (r.next sink (.access now)).cursor_le_edge
  unfold edge at later ⊢
  cases at_ : r.pipeline.drain.phase with
  | delivering found | flushing | closing =>
    have calls : r.pipeline.drain.phase.callsSink = true := by rw [at_]; rfl
    obtain ⟨_, _, _, stepped⟩ := Pipeline.exists_step_eq sink calls now
    simp only [Reader.next, stepped, Pipeline.drainAfter, at_]
    omega
  | reading | releasing found =>
    simp only [Reader.next, Pipeline.step, at_, Pipeline.enter, Pipeline.mapRing,
      Pipeline.mapChannel]
    omega
  | catchingUp published =>
    obtain ⟨phase, stepped, other⟩ := accounts.exists_catchingUp_eq sink at_ now
    simp only [Pipeline.floor, at_] at floor_le
    simp only [Reader.next, stepped]
    rcases other with rfl | ⟨rfl, -⟩
    · exact ⟨floor_le, floor_le⟩
    · exact ⟨floor_le, floor_le⟩
  | polling | idling | leaving | parked | ended panicked =>
    have idle : r.pipeline.isBusy = false := by rw [Pipeline.isBusy, at_]
    obtain ⟨unflushed, phase, stepped, -⟩ :=
      Pipeline.exists_step_idle sink idle (by rw [at_]; rfl) (by rw [at_]; rintro _ ⟨⟩) now
    simp only [Reader.next, stepped] at later ⊢
    exact ⟨Nat.le_refl _, later⟩

/-- **An event keeps the invariant.** A sequence is read at the cursor, above all that were read
before. -/
theorem Inv.next {first : Nat} (never : sink.NeverCommits) (quiet : sink.FlushesQuietly)
    (inv : Inv first r) (event : ReaderEvent) : Inv first (r.next sink event) := by
  obtain ⟨log, accounts⟩ := inv.accounts
  cases event with
  | stop =>
    obtain ⟨keeps, within, floor_le, gap, knows, balance, skipped_le⟩ := accounts
    exact ⟨⟨log, keeps, within, floor_le, gap, knows, balance, skipped_le⟩, inv.reads_ge,
      inv.reads_lt, inv.ordered, inv.first_le, inv.settled⟩
  | access now =>
    obtain ⟨cursor, edge⟩ := inv.moves sink now
    have settled := accounts.settled_step never now
      (fun left => givenNext_of_hasLeft quiet left now) inv.settled
    have first_le := Nat.le_trans inv.first_le cursor
    have read : (r.next sink (.access now)).reads = r.reads ∨
        r.pipeline.drain.phase = .reading ∧
          (r.next sink (.access now)).reads = r.reads ++ [r.pipeline.drain.cursor] := by
      cases at_ : r.pipeline.drain.phase with
      | reading => exact .inr ⟨rfl, by simp only [Reader.next, at_]⟩
      | _ => exact .inl (by simp only [Reader.next, at_])
    rcases read with same | ⟨at_, grown⟩
    · refine ⟨⟨_, accounts.step never now⟩, same ▸ inv.reads_ge, ?_, same ▸ inv.ordered, first_le,
        settled⟩
      intro s member
      exact Nat.lt_of_lt_of_le (inv.reads_lt s (same ▸ member)) edge
    · have here : r.edge = r.pipeline.drain.cursor := by rw [Reader.edge, at_]
      have there : (r.next sink (.access now)).edge = r.pipeline.drain.cursor + 1 := by
        simp only [Reader.edge, Reader.next, Pipeline.step, at_, Pipeline.enter]
      have below := inv.reads_lt
      rw [here] at below
      refine ⟨⟨_, accounts.step never now⟩, ?_, ?_, ?_, first_le, settled⟩
      · intro s member
        rw [grown, List.mem_append, List.mem_singleton] at member
        rcases member with old | rfl
        · exact inv.reads_ge s old
        · exact inv.first_le
      · intro s member
        rw [grown, List.mem_append, List.mem_singleton] at member
        rw [there]
        rcases member with old | rfl
        · exact Nat.lt_succ_of_lt (below s old)
        · exact Nat.lt_succ_self _
      · rw [grown, List.pairwise_append]
        refine ⟨inv.ordered, List.pairwise_singleton _ _, ?_⟩
        intro s old t last
        rw [List.mem_singleton.1 last]
        exact below s old

theorem Inv.run {first : Nat} (never : sink.NeverCommits) (quiet : sink.FlushesQuietly)
    (inv : Inv first r) (events : List ReaderEvent) : Inv first (r.run sink events) := by
  induction events generalizing r with
  | nil => exact inv
  | cons event rest ih => exact ih (inv.next never quiet event)

theorem Inv.drained {first : Nat} (inv : Inv first r) (ended : r.pipeline.isEnded = true) :
    r.pipeline.channel.ring.consumed = r.pipeline.channel.ring.published ∧
      r.pipeline.drain.cursor = r.pipeline.channel.ring.published ∧
        ∀ s ∈ r.reads, s < r.pipeline.drain.cursor := by
  obtain ⟨left, idle⟩ := Pipeline.left_of_isEnded ended
  obtain ⟨log, accounts⟩ := inv.accounts
  obtain ⟨consumed, -⟩ := accounts.drained idle (inv.settled left)
  obtain ⟨floor, -⟩ := Pipeline.idle_of_not_isBusy idle
  have lower := accounts.floor_le
  have settled := inv.settled left
  have edge := edge_of_not_isBusy idle
  exact ⟨consumed, by omega, edge ▸ inv.reads_lt⟩

end Reader

/-! ### Many runs -/

/-- A channel with what its consumers did so far. -/
structure Station where
  channel : Channel
  /-- The sequences that were read, in all runs. -/
  reads : List Nat := []
  /-- Where the last run stopped. -/
  stop : Nat := 0
  /-- Whether nothing happened since then. -/
  isFresh : Bool := false

namespace Station

/-- The station after a writer of a mode published some bytes. -/
def publish (s : Station) (mode : WriterMode) (encoded : Bytes) : Station :=
  { s with
    channel := { s.channel with ring := (s.channel.ring.publishBy mode encoded).2 }
    isFresh := false }

/-- A new consumer, told to stop from the beginning unless the channel is `running`. -/
def reader {σ : Type} (s : Station) (running : Bool) (state : σ) : Reader σ where
  pipeline := .start { s.channel with running } state

/-- The station when a consumer has come to its end. -/
def after {σ : Type} (s : Station) (r : Reader σ) : Station where
  channel := r.pipeline.channel
  reads := s.reads ++ r.reads
  stop := r.pipeline.drain.cursor
  isFresh := true

/-- The stations that publishing and runs lead to. The sink of a run may publish whatever it likes
when it is handed a record, and every run comes to its end. -/
inductive Reached (g : Geometry) (mode : WriterMode) (threshold : Severity) : Station → Prop
  | empty : Reached g mode threshold { channel := .ofGeometry g mode threshold }
  | publish {s : Station} (by_ : WriterMode) (encoded : Bytes) :
    Reached g mode threshold s → Reached g mode threshold (s.publish by_ encoded)
  | run {s : Station} {σ : Type} (sink : Sink σ) (never : sink.NeverCommits)
    (quiet : sink.FlushesQuietly) (running : Bool) (state : σ) (events : List ReaderEvent) :
    Reached g mode threshold s →
      ((s.reader running state).run sink events).pipeline.isEnded = true →
        Reached g mode threshold (s.after ((s.reader running state).run sink events))

/-- What holds after every operation. -/
structure Conserved (s : Station) : Prop where
  /-- What was published was answered for, lost, or is unread. -/
  balance : s.channel.stats.published =
    s.channel.stats.delivered + s.channel.stats.sinkFailures + s.channel.stats.decodeFailures +
      s.channel.stats.overflowed + (s.channel.ring.published - s.channel.ring.consumed)
  skipped : s.channel.stats.skipped = 0
  /-- No sequence was read twice, in whichever run. -/
  ordered : s.reads.Pairwise (· < ·)
  reads_lt : ∀ q ∈ s.reads, q < s.stop
  /-- A new run begins where the last one stopped, or at the oldest record that is left since. -/
  resumes : ∀ {σ : Type} (running : Bool) (state : σ),
    (s.reader running state).pipeline.drain.cursor =
      max s.stop (s.channel.ring.published - s.channel.geometry.slotCount)
  /-- A run ends with nothing unread. -/
  rests : s.isFresh = true →
    s.channel.ring.consumed = s.channel.ring.published ∧ s.stop = s.channel.ring.published

/-- **The invariant.** -/
structure Inv (s : Station) : Prop where
  keeps : ∃ log, s.channel.ring.Keeps log
  within : s.channel.ring.Within
  balance : s.channel.ring.consumed = s.channel.ring.overflowed + s.channel.tally.answered
  skipped : s.channel.tally.skipped = 0
  ordered : s.reads.Pairwise (· < ·)
  reads_lt : ∀ q ∈ s.reads, q < s.stop
  consumed : s.channel.ring.consumed =
    max s.stop (s.channel.ring.published - s.channel.geometry.slotCount)
  rests : s.isFresh = true →
    s.channel.ring.consumed = s.channel.ring.published ∧ s.stop = s.channel.ring.published

variable {s : Station}

theorem Inv.fed (inv : s.Inv) {c : Channel} {log more : List Bytes}
    (fed : s.channel.Fed log more c) (keeps : s.channel.ring.Keeps log)
    (tally : c.tally = s.channel.tally) :
    ({ s with channel := c, isFresh := false } : Station).Inv := by
  have count := fed.keeps.published
  have moved := fed.consumed
  have losses := fed.overflowed
  have balance := inv.balance
  have consumed := inv.consumed
  have slots : c.geometry.slotCount = s.channel.geometry.slotCount :=
    congrArg Geometry.slotCount fed.geometry
  rw [← count] at moved
  rw [List.length_append, ← keeps.published] at count
  refine ⟨⟨_, fed.keeps⟩, fed.within, ?_, tally ▸ inv.skipped, inv.ordered, inv.reads_lt, ?_, nofun⟩
  · show c.ring.consumed = c.ring.overflowed + c.tally.answered
    rw [tally]
    omega
  · show c.ring.consumed = max s.stop (c.ring.published - c.geometry.slotCount)
    omega

/-- A run takes the accounts over and leaves them in order. -/
theorem Inv.after {σ : Type} {sink : Sink σ} (inv : s.Inv) (never : sink.NeverCommits)
    (quiet : sink.FlushesQuietly) (running : Bool) (state : σ) (events : List ReaderEvent)
    (ended : ((s.reader running state).run sink events).pipeline.isEnded = true) :
    (s.after ((s.reader running state).run sink events)).Inv := by
  obtain ⟨log, keeps⟩ := inv.keeps
  have begun : Reader.Inv s.channel.ring.consumed (s.reader running state) := by
    obtain ⟨-, within, balance, skipped, -, -, -, -⟩ := inv
    have accounts : (Pipeline.start { s.channel with running } state).Accounts log 0 :=
      @Pipeline.accounts_start σ log { s.channel with running } keeps within balance skipped state
    refine ⟨⟨log, accounts⟩, ?_, ?_, .nil, Nat.le_refl _, nofun⟩
    · intro q member
      cases member
    · intro q member
      cases member
  have run := begun.run never quiet events
  obtain ⟨rests, stop, reads_lt⟩ := run.drained ended
  obtain ⟨last, accounts⟩ := run.accounts
  obtain ⟨left, idle⟩ := Pipeline.left_of_isEnded ended
  obtain ⟨-, held, -⟩ := Pipeline.idle_of_not_isBusy idle
  have first_le := run.first_le
  have resumed := inv.consumed
  refine ⟨⟨last, accounts.keeps⟩, accounts.within, ?_, ?_, ?_, ?_, ?_, fun _ => ⟨rests, stop⟩⟩
  · have balance := accounts.balance
    rw [held] at balance
    exact balance
  · exact Nat.eq_zero_of_le_zero (Nat.le_trans (Nat.le_add_right _ _) accounts.skipped_le)
  · refine List.pairwise_append.2 ⟨inv.ordered, run.ordered, ?_⟩
    intro q old t new
    have before := inv.reads_lt q old
    have behind := run.reads_ge t new
    omega
  · intro q member
    rcases List.mem_append.1 member with old | new
    · have before := inv.reads_lt q old
      show q < ((s.reader running state).run sink events).pipeline.drain.cursor
      omega
    · exact reads_lt q new
  · show ((s.reader running state).run sink events).pipeline.channel.ring.consumed =
      max ((s.reader running state).run sink events).pipeline.drain.cursor
        (((s.reader running state).run sink events).pipeline.channel.ring.published - _)
    omega

theorem inv_of_reached {g : Geometry} {mode : WriterMode} {threshold : Severity}
    (reached : Reached g mode threshold s) : s.Inv := by
  induction reached with
  | empty =>
    refine ⟨⟨[], Ring.keeps_empty g⟩, Ring.within_empty g, rfl, rfl, .nil, ?_, ?_, nofun⟩
    · intro q member
      cases member
    · show 0 = max 0 (0 - _)
      omega
  | publish by_ encoded _ inv =>
    obtain ⟨log, keeps⟩ := inv.keeps
    exact inv.fed (Channel.fed_publishBy keeps inv.within by_ encoded) keeps rfl
  | run sink never quiet running state events _ ended inv =>
    exact inv.after never quiet running state events ended

/-- **No record is lost from the books, and none is read twice**, whatever is published in whichever
mode, by writers between the runs and by sinks in the middle of them, and however the sinks
answer. -/
theorem conserved_of_reached {g : Geometry} {mode : WriterMode} {threshold : Severity}
    (reached : Reached g mode threshold s) : s.Conserved := by
  have inv := inv_of_reached reached
  have balance := inv.balance
  have skipped := inv.skipped
  have upper := inv.within.consumed_le
  rw [Tally.answered] at balance
  refine ⟨?_, skipped, inv.ordered, inv.reads_lt, ?_, inv.rests⟩
  · show s.channel.ring.published = s.channel.tally.delivered + s.channel.tally.sinkFailures +
      s.channel.tally.decodeFailures + s.channel.ring.overflowed + _
    omega
  · intro σ running state
    exact inv.consumed

/-- A sink that publishes three times into a ring of two slots, of which once no record, when it is
handed the first record, and panics; afterwards it takes everything. -/
def bursting : Sink Bool where
  write burst _ :=
    { state := true
      acts := if burst then [] else
        [.publish (Record.encode ⟨4, .info, 0, []⟩), .publishAlone (List.replicate headerSize 0),
          .publish (Record.encode ⟨6, .info, 0, []⟩)]
      outcome := if burst then .ok else .panicked }

/-- Three records for two slots. -/
def crowded : Station :=
  [1, 2, 3].foldl (fun s t => s.publish .single (Record.encode ⟨t, .info, 0, []⟩))
    { channel := .ofGeometry .twoSlots .single .trace }

/-- A consumer of the bursting sink after so many accesses that it has come to its end. -/
def burst (s : Station) (before : Bool) : Reader Bool :=
  (s.reader false before).run bursting (List.replicate 30 (.access 0))

/-- A run, and one record more. -/
def visited : Station :=
  (crowded.after (crowded.burst false)).publish .claimed (Record.encode ⟨7, .info, 0, []⟩)

theorem conserved_of_reached_visited :
    Reached ⟨2, 16, by decide, by decide, by decide, by decide⟩ .single .trace
      (visited.after (visited.burst true)) ∧
    (visited.after (visited.burst true)).Conserved ∧
    (visited.after (visited.burst true)).reads = [1, 4, 5, 6] ∧
    (visited.after (visited.burst true)).channel.stats = ⟨7, 2, 3, 0, 1, 1, 0⟩ := by
  have never : bursting.NeverCommits := by
    refine ⟨?_, ?_⟩
    · intro before f a member
      cases before with
      | true => cases member
      | false =>
        rcases List.mem_cons.1 member with rfl | member
        · rfl
        · rcases List.mem_cons.1 member with rfl | member
          · rfl
          · rw [List.mem_singleton.1 member]
            rfl
    · intro before a member
      cases member
  have quiet : bursting.FlushesQuietly := fun _ => rfl
  have first : Reached ⟨2, 16, by decide, by decide, by decide, by decide⟩ .single .trace crowded :=
    .publish _ _ (.publish _ _ (.publish _ _ .empty))
  have second : Reached ⟨2, 16, by decide, by decide, by decide, by decide⟩ .single .trace
      visited :=
    .publish _ _ (.run bursting never quiet false false _ first (by decide))
  have third := Reached.run bursting never quiet false true (List.replicate 30 (.access 0)) second
    (by decide)
  exact ⟨third, conserved_of_reached third, by decide, by decide⟩

end Station

end LogRelay
