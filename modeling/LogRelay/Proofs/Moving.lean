/-
# Moves of the consumer

The consumer takes a record in one move, from the choice of its sequence to giving its slot back, so
that no writer gets in between and the accounts have no overlap. Between two moves every published
record is answered for, lost, in the ring, or in the hands of the sink. Once the loop is told to
stop, a move hands over what is in the sink's hands and takes the oldest record that waits, and
nothing else changes in what is left.

Key definitions: `Channel.waiting`, `Pipeline.unhanded`, `Pipeline.move`, `Pipeline.Orderly`,
`Channel.Shut`, `Pipeline.Balanced`.
Key theorems: `Pipeline.Orderly.move_cases`, `Pipeline.Orderly.move`,
`Pipeline.Orderly.unhanded_move`, `Pipeline.sink_move`, `Pipeline.Orderly.published_eq`.
-/
import LogRelay.Proofs.Admission
import LogRelay.Proofs.Calling
import LogRelay.Proofs.Ending

namespace LogRelay

/-! ### What waits -/

/-- The record under a sequence of a channel, if it is there. -/
def Channel.recordAt? (c : Channel) (s : Nat) : Option Frame :=
  match c.ring.read s c.geometry.slotBytes with
  | .ready bytes => (Frame.decode bytes).toOption
  | _ => none

theorem Channel.recordAt?_eq (c : Channel) (s : Nat) :
    c.recordAt? s = (c.ring.read s c.geometry.slotBytes).frame? := by
  unfold recordAt?
  cases c.ring.read s c.geometry.slotBytes with
  | ready bytes | overwritten | corrupt e => rfl

/-- The records that wait in the ring of a channel, the oldest in front. -/
def Channel.waiting (c : Channel) : List Frame :=
  (List.range' c.ring.consumed c.ring.length).filterMap c.recordAt?

/-- Giving back the slot of the oldest record takes that from those that wait. -/
theorem Channel.waiting_eq_commit {c : Channel} (unread : c.ring.consumed < c.ring.published) :
    c.waiting = (c.recordAt? c.ring.consumed).toList ++
      ({ c with ring := c.ring.commit (c.ring.consumed + 1) } : Channel).waiting := by
  have next : (c.ring.commit (c.ring.consumed + 1)).consumed = c.ring.consumed + 1 :=
    Nat.max_eq_right (Nat.le_succ _)
  obtain ⟨count, more⟩ : ∃ k, c.ring.length = k + 1 :=
    ⟨c.ring.published - c.ring.consumed - 1, by rw [Ring.length]; omega⟩
  have rest : (c.ring.commit (c.ring.consumed + 1)).length = count := by
    have published : (c.ring.commit (c.ring.consumed + 1)).published = c.ring.published := rfl
    rw [Ring.length] at more ⊢
    omega
  rw [waiting, more, List.range'_succ, waiting, rest, next]
  cases found : c.recordAt? c.ring.consumed with
  | none => exact List.filterMap_cons_none found
  | some f => exact List.filterMap_cons_some found

namespace Pipeline

variable {σ : Type} {sink : Sink σ} {p : Pipeline σ} {published : List Bytes} {overlap : Nat}

/-- All that the sink has not answered for: the record in its hands, and those that wait. -/
def unhanded (p : Pipeline σ) : List Frame := p.inHand.toList ++ p.channel.waiting

/-! ### Moves of the consumer -/

/-- One step of the consumer, or the three that take a record from the ring. -/
def move (sink : Sink σ) (p : Pipeline σ) (now : UInt64) : Pipeline σ :=
  let next := p.step sink now
  match next.drain.phase with
  | .reading => (next.step sink now).step sink now
  | _ => next

/-- The pipeline with the oldest record taken from the ring. -/
def taken (p : Pipeline σ) : Pipeline σ where
  channel := { p.channel with ring := p.channel.ring.commit (p.channel.ring.consumed + 1) }
  drain := ⟨p.channel.ring.consumed, p.drain.unflushed,
    .delivering (p.channel.ring.read p.channel.ring.consumed p.channel.geometry.slotBytes)⟩
  sink := p.sink
  scratch := p.scratch

/-- **The invariant of a consumer** that moves while well-formed records are published. -/
structure Orderly (p : Pipeline σ) : Prop where
  accounts : ∃ log, p.Accounts log 0 ∧ ∀ encoded ∈ log, ∃ r : Record, encoded = r.encode
  unchosen : p.chosen? = none
  carries : ∀ found, p.drain.phase = .delivering found → p.inHand.isSome = true
  told : p.isLeaving = true → p.channel.running = false
  settled : p.hasLeft = true → p.channel.ring.published ≤ p.drain.cursor
  finished : p.channel.finished = p.isEnded

theorem move_eq_step {now : UInt64} (idle : (p.step sink now).isBusy = false) :
    p.move sink now = p.step sink now := by
  unfold isBusy at idle
  unfold move
  cases at_ : (p.step sink now).drain.phase with
  | reading =>
    rw [at_] at idle
    cases idle
  | _ => simp only [at_]

theorem sink_move (sink : Sink σ) (p : Pipeline σ) (now : UInt64) :
    (p.move sink now).sink = sink.after p.sink p.calls?.toList := by
  have first := sink_step sink p now
  unfold move
  dsimp only
  split
  · next at_ =>
    -- copying a record out and giving its slot back are no calls
    have silent : (p.step sink now).calls? = none := by rw [calls?, at_]
    have silent' : ((p.step sink now).step sink now).calls? = none := by
      generalize p.step sink now = q at at_
      simp only [step, calls?, at_, enter]
    rw [sink_step, sink_step, silent, silent', first]
    rfl
  · exact first

/-- **A move is a step that leaves nothing in the loop's hands, or it takes a record.** -/
theorem Orderly.move_cases (orderly : p.Orderly) (sink : Sink σ) (now : UInt64) :
    (p.move sink now = p.step sink now ∧ (p.step sink now).isBusy = false) ∨
      (∃ published, p.drain.phase = .catchingUp published) ∧
        p.channel.ring.consumed < p.channel.ring.published ∧
        p.move sink now = ((p.step sink now).step sink now).step sink now ∧
        p.move sink now = p.taken := by
  obtain ⟨log, accounts, -⟩ := orderly.accounts
  have unchosen := orderly.unchosen
  cases at_ : p.drain.phase with
  | reading | releasing found =>
    rw [chosen?, at_] at unchosen
    cases unchosen
  | catchingUp published =>
    obtain ⟨phase, stepped, rfl | ⟨rfl, unread⟩⟩ := accounts.exists_catchingUp_eq sink at_ now
    · have idle : (p.step sink now).isBusy = false := by rw [stepped]; rfl
      exact .inl ⟨move_eq_step idle, idle⟩
    · have moved : p.move sink now = ((p.step sink now).step sink now).step sink now := by
        rw [move, stepped]
      refine .inr ⟨⟨published, rfl⟩, unread, moved, ?_⟩
      rw [moved, stepped]
      rfl
  | delivering found | flushing | closing =>
    obtain ⟨_, _, _, stepped⟩ := exists_step_eq sink (by rw [at_]; rfl) now
    have idle : (p.step sink now).isBusy = false := by
      simp only [stepped, isBusy, drainAfter, at_]
    exact .inl ⟨move_eq_step idle, idle⟩
  | polling | idling | leaving | parked | ended panicked =>
    obtain ⟨unflushed, phase, stepped, idle, -⟩ := exists_step_idle sink (by rw [isBusy, at_])
      (by rw [at_]; rfl) (by rw [at_]; rintro _ ⟨⟩) now
    rw [← stepped] at idle
    exact .inl ⟨move_eq_step idle, idle⟩

theorem inHand_of_not_isBusy (idle : p.isBusy = false) : p.inHand = none := by
  unfold isBusy at idle
  unfold inHand
  cases at_ : p.drain.phase with
  | delivering found =>
    rw [at_] at idle
    cases idle
  | _ => rfl

theorem inHand_taken : p.taken.inHand = p.channel.recordAt? p.channel.ring.consumed :=
  (inHand_of_delivering rfl).trans (p.channel.recordAt?_eq _).symm

theorem Accounts.read_eq (accounts : p.Accounts published overlap) {s : Nat} {r : Record}
    (here : published[s]? = some r.encode) (unread : p.channel.ring.consumed ≤ s) :
    p.channel.ring.read s p.channel.geometry.slotBytes =
      .ready (p.channel.geometry.fitted r).encode := by
  obtain ⟨inside, encodes⟩ := List.getElem?_eq_some_iff.1 here
  have window := accounts.within.published_le
  have count := accounts.keeps.published
  have held := accounts.keeps.holds s inside (by omega)
  rw [encodes] at held
  exact Ring.read_of_holds held (Nat.le_refl _)

theorem Accounts.isSome_recordAt? (accounts : p.Accounts published overlap)
    (encodings : ∀ encoded ∈ published, ∃ r : Record, encoded = r.encode) {s : Nat}
    (unread : p.channel.ring.consumed ≤ s) (below : s < p.channel.ring.published) :
    (p.channel.recordAt? s).isSome = true := by
  have inside : s < published.length := by
    rw [← accounts.keeps.published]
    exact below
  obtain ⟨r, encodes⟩ := encodings _ (List.getElem_mem inside)
  have here : published[s]? = some r.encode := by rw [List.getElem?_eq_getElem inside, encodes]
  rw [Channel.recordAt?, accounts.read_eq here unread]
  simp only [Frame.decode_encode (Geometry.length_fitted_le _ r)]
  rfl

theorem Accounts.length_waiting (accounts : p.Accounts published overlap)
    (encodings : ∀ encoded ∈ published, ∃ r : Record, encoded = r.encode) :
    p.channel.waiting.length = p.channel.ring.length := by
  have each : ∀ s ∈ List.range' p.channel.ring.consumed p.channel.ring.length,
      (p.channel.recordAt? s).isSome = true := by
    intro s member
    obtain ⟨lower, upper⟩ := List.mem_range'_1.1 member
    rw [Ring.length] at upper
    exact accounts.isSome_recordAt? encodings lower (by omega)
  rw [Channel.waiting, List.filterMap_length_eq_length.2 each, List.length_range']

/-! What a move keeps. -/

theorem encodings_step (only : sink.OnlyLogs)
    (encodings : ∀ encoded ∈ published, ∃ r : Record, encoded = r.encode) (now : UInt64) :
    ∀ encoded ∈ published ++ p.givenNext sink now, ∃ r : Record, encoded = r.encode := by
  intro encoded member
  rcases List.mem_append.1 member with old | new
  · exact encodings encoded old
  · rw [(givenNext_eq_records only p now).1] at new
    obtain ⟨r, -, rfl⟩ := List.mem_map.1 new
    exact ⟨r, rfl⟩

theorem accounts_step (only : sink.OnlyLogs)
    (accounts : ∃ log, p.Accounts log 0 ∧ ∀ encoded ∈ log, ∃ r : Record, encoded = r.encode)
    (now : UInt64) :
    ∃ log, (p.step sink now).Accounts log 0 ∧
      ∀ encoded ∈ log, ∃ r : Record, encoded = r.encode := by
  obtain ⟨log, accounts, encodings⟩ := accounts
  exact ⟨_, accounts.step only.neverCommits now, encodings_step only encodings now⟩

/-- A step that leaves nothing in the loop's hands: the loop leaves only if it was told to stop, and
says that it is done when it is. -/
theorem Orderly.leaves_step (orderly : p.Orderly) (sink : Sink σ) (now : UInt64)
    (idle : (p.step sink now).isBusy = false) :
    ((p.step sink now).isLeaving = true → p.isLeaving = true ∨ p.channel.running = false) ∧
      (p.step sink now).channel.finished = (p.step sink now).isEnded := by
  obtain ⟨log, accounts, -⟩ := orderly.accounts
  have finished := orderly.finished
  have unchosen := orderly.unchosen
  cases at_ : p.drain.phase with
  | reading | releasing found =>
    rw [chosen?, at_] at unchosen
    cases unchosen
  | catchingUp published =>
    rw [isEnded, at_] at finished
    obtain ⟨phase, stepped, rfl | ⟨rfl, -⟩⟩ := accounts.exists_catchingUp_eq sink at_ now
    · rw [stepped]
      refine ⟨?_, finished⟩
      rintro ⟨⟩
    · rw [stepped] at idle
      cases idle
  | delivering found | flushing =>
    rw [isEnded, at_] at finished
    obtain ⟨_, _, _, stepped⟩ := exists_step_eq sink (by rw [at_]; rfl) now
    rw [stepped]
    refine ⟨fun leaving => ?_, ?_⟩
    · simp only [isLeaving, drainAfter, at_, Bool.false_eq_true] at leaving
    · simp only [isEnded, drainAfter, at_]
      show p.finishedAfter = _
      simp only [finishedAfter, at_, finished]
  | closing =>
    obtain ⟨_, _, _, stepped⟩ := exists_step_eq sink (by rw [at_]; rfl) now
    rw [stepped]
    refine ⟨fun _ => .inl (by rw [isLeaving, at_]), ?_⟩
    simp only [isEnded, drainAfter, at_]
    show p.finishedAfter = true
    simp only [finishedAfter, at_]
  | polling | idling | leaving | parked | ended panicked =>
    obtain ⟨unflushed, phase, stepped, -, -, -, leaves, ends⟩ := exists_step_idle sink
      (by rw [isBusy, at_]) (by rw [at_]; rfl) (by rw [at_]; rintro _ ⟨⟩) now
    rw [stepped]
    exact ⟨leaves, finished.trans ends.symm⟩

theorem isLeaving_of_hasLeft (left : p.hasLeft = true) : p.isLeaving = true := by
  unfold hasLeft at left
  unfold isLeaving
  cases at_ : p.drain.phase with
  | leaving | closing | ended panicked => rfl
  | _ =>
    rw [at_] at left
    cases left

/-- **A move keeps the invariant.** -/
theorem Orderly.move (only : sink.OnlyLogs) (orderly : p.Orderly) (now : UInt64) :
    (p.move sink now).Orderly := by
  rcases orderly.move_cases sink now with
    ⟨moved, idle⟩ | ⟨⟨published, at_⟩, unread, three, moved⟩
  · rw [moved]
    obtain ⟨leaves, finished⟩ := orderly.leaves_step sink now idle
    have told : (p.step sink now).isLeaving = true → (p.step sink now).channel.running = false := by
      intro leaving
      rw [(p.step_spares sink now).2.2.1]
      rcases leaves leaving with earlier | stopped
      · exact orderly.told earlier
      · exact stopped
    refine ⟨accounts_step only orderly.accounts now, (idle_of_not_isBusy idle).2.2.2, ?_, told, ?_,
      finished⟩
    · intro found at_
      rw [isBusy, at_] at idle
      cases idle
    · intro left
      obtain ⟨log, accounts, -⟩ := orderly.accounts
      refine accounts.settled_step only.neverCommits now (fun left => ?_) orderly.settled left
      exact givenNext_of_stopped only (orderly.told (isLeaving_of_hasLeft left)) now
  · have accounts := accounts_step only
      (accounts_step only (accounts_step only orderly.accounts now) now) now
    have finished := orderly.finished
    rw [isEnded, at_] at finished
    rw [← three, moved] at accounts
    rw [moved]
    refine ⟨accounts, rfl, ?_, ?_, ?_, finished⟩
    · intro found _
      obtain ⟨log, waiting, encodings⟩ := orderly.accounts
      rw [inHand_taken]
      exact waiting.isSome_recordAt? encodings (Nat.le_refl _) unread
    · rintro ⟨⟩
    · rintro ⟨⟩

theorem Orderly.log (orderly : p.Orderly) (scratch : Scratch) (now : UInt64) (entry : Entry 1) :
    (p.mapChannel fun _ => (p.channel.log scratch now entry).1).Orderly := by
  obtain ⟨log, accounts, encodings⟩ := orderly.accounts
  have written := p.channel.writtenTo_log scratch now entry
  have fed := Channel.fed_log accounts.keeps accounts.within scratch now entry
  have published := @Accounts.fed σ p
    (p.mapChannel fun _ => (p.channel.log scratch now entry).1) _ _ _ accounts fed rfl written.tally
  -- the loop has chosen no record that could be given up under its hands
  have held : (p.mapChannel fun _ => (p.channel.log scratch now entry).1).held = p.held :=
    held_eq_of_chosen rfl orderly.unchosen
  rw [held, Nat.sub_self] at published
  refine ⟨⟨_, published, ?_⟩, orderly.unchosen, orderly.carries, ?_, ?_, ?_⟩
  · intro encoded member
    rcases List.mem_append.1 member with old | new
    · exact encodings encoded old
    · obtain ⟨r, -, rfl⟩ := Option.map_eq_some_iff.1 (Option.mem_toList.1 new)
      exact ⟨r, rfl⟩
  · intro leaving
    exact written.running.trans (orderly.told leaving)
  · intro left
    have stopped := orderly.told (isLeaving_of_hasLeft left)
    show (p.channel.log scratch now entry).1.ring.published ≤ p.drain.cursor
    rw [Channel.log_of_not_accepts scratch now entry (Channel.accepts_of_stopped stopped _)]
    exact orderly.settled left
  · exact written.finished.trans orderly.finished

theorem Orderly.retuned (orderly : p.Orderly) (threshold : Severity) {running : Bool}
    (notices : List Notice) (stays : running = true → p.channel.running = true) :
    (p.mapChannel fun c => { c with threshold, running, notices }).Orderly := by
  obtain ⟨log, accounts, encodings⟩ := orderly.accounts
  refine ⟨⟨log, accounts.retuned threshold running notices, encodings⟩, orderly.unchosen,
    orderly.carries, ?_, orderly.settled, orderly.finished⟩
  intro leaving
  show running = false
  cases running with
  | false => rfl
  | true => exact (stays rfl).symm.trans (orderly.told leaving)

/-! What is left to do once the consumer is told to stop. -/

/-- A loop that is not busy leaves the records that wait alone, once nothing is published. -/
theorem Orderly.waiting_step (only : sink.OnlyLogs) (orderly : p.Orderly)
    (stopped : p.channel.running = false) (now : UInt64) :
    (p.step sink now).channel.waiting = p.channel.waiting ∧
      (p.step sink now).channel.ring.published = p.channel.ring.published ∧
      (p.step sink now).channel.ring.overflowed = p.channel.ring.overflowed := by
  have served := channel_served_of_stopped only stopped now
  have unchosen := orderly.unchosen
  cases at_ : p.drain.phase with
  | reading | releasing found =>
    rw [chosen?, at_] at unchosen
    cases unchosen
  | delivering found | flushing | closing =>
    obtain ⟨_, _, _, stepped⟩ := exists_step_eq sink (by rw [at_]; rfl) now
    have waiting := congrArg Channel.waiting served
    have published := congrArg (fun c : Channel => c.ring.published) served
    have overflowed := congrArg (fun c : Channel => c.ring.overflowed) served
    rw [stepped]
    exact ⟨waiting, published, overflowed⟩
  | polling | catchingUp published | idling | leaving | parked | ended panicked =>
    rw [channel_step_eq (by rw [at_]; rfl) (by rw [at_]; rintro _ ⟨⟩)]
    exact ⟨rfl, rfl, rfl⟩

end Pipeline

/-- What stays as it is when nothing is taken any more: what is published, lost and refused. -/
structure Channel.Shut (c c' : Channel) : Prop where
  running : c'.running = false
  published : c'.ring.published = c.ring.published
  overflowed : c'.ring.overflowed = c.ring.overflowed
  writeFailures : c'.writeReports.total = c.writeReports.total

theorem Channel.Shut.trans {c c' c'' : Channel} (first : c.Shut c') (second : c'.Shut c'') :
    c.Shut c'' where
  running := second.running
  published := second.published.trans first.published
  overflowed := second.overflowed.trans first.overflowed
  writeFailures := second.writeFailures.trans first.writeFailures

namespace Pipeline

variable {σ : Type} {sink : Sink σ} {p : Pipeline σ}

/-- **A move hands over what is in the sink's hands**, and takes nothing else from what is left. -/
theorem Orderly.unhanded_move (only : sink.OnlyLogs) (orderly : p.Orderly)
    (stopped : p.channel.running = false) (now : UInt64) :
    p.inHand.toList ++ (p.move sink now).unhanded = p.unhanded := by
  rcases orderly.move_cases sink now with ⟨moved, idle⟩ | ⟨⟨published, at_⟩, unread, -, moved⟩
  · rw [moved, unhanded, unhanded, inHand_of_not_isBusy idle,
      (orderly.waiting_step only stopped now).1]
    rfl
  · have none : p.inHand = none := by rw [inHand, at_]
    rw [moved, unhanded, unhanded, inHand_taken, none, Channel.waiting_eq_commit unread]
    rfl

theorem Orderly.shut_move (only : sink.OnlyLogs) (orderly : p.Orderly)
    (stopped : p.channel.running = false) (now : UInt64) :
    p.channel.Shut (p.move sink now).channel := by
  rcases orderly.move_cases sink now with ⟨moved, -⟩ | ⟨-, -, -, moved⟩
  · obtain ⟨-, -, running, reports⟩ := p.step_spares sink now
    obtain ⟨-, published, overflowed⟩ := orderly.waiting_step only stopped now
    rw [moved]
    refine ⟨running.trans stopped, published, overflowed, ?_⟩
    rw [reports, channel_served_of_stopped only stopped]
  · rw [moved]
    exact ⟨stopped, rfl, rfl, rfl⟩

theorem Orderly.running_move (orderly : p.Orderly) (sink : Sink σ) (now : UInt64) :
    (p.move sink now).channel.running = p.channel.running := by
  rcases orderly.move_cases sink now with ⟨moved, -⟩ | ⟨-, -, -, moved⟩
  · rw [moved]
    exact (p.step_spares sink now).2.2.1
  · rw [moved]
    rfl

/-- **Every move brings it nearer to its end.** -/
theorem Orderly.movesLeft_move_lt (only : sink.OnlyLogs) (orderly : p.Orderly)
    (stopped : p.channel.running = false) (going : p.isEnded = false) (now : UInt64) :
    (p.move sink now).movesLeft < p.movesLeft := by
  obtain ⟨log, accounts, -⟩ := orderly.accounts
  rcases orderly.move_cases sink now with ⟨moved, -⟩ | ⟨⟨published, at_⟩, -, -, moved⟩
  · have same := congrArg (fun c : Channel => c.ring.published)
      (channel_served_of_stopped only stopped now)
    rw [moved]
    exact movesLeft_step_lt sink accounts.knows stopped going now same
  · -- the record that is taken is not below the cursor, so no more are left to be read
    have floor_le := accounts.floor_le
    simp only [floor, at_] at floor_le
    rw [moved, movesLeft, movesLeft, at_]
    show 5 * (p.channel.ring.published - p.channel.ring.consumed) <
      5 * (p.channel.ring.published - p.drain.cursor) + 3
    omega

theorem move_ended (sink : Sink σ) (now : UInt64) (ended : p.isEnded = true) :
    p.move sink now = p := by
  have stepped := p.step_ended sink now ended
  have idle := (left_of_isEnded ended).2
  rw [← stepped] at idle
  rw [move_eq_step idle, stepped]

/-! The counts. -/

/-- Nothing is unread, and every record is counted once. -/
structure Balanced (p : Pipeline σ) : Prop where
  consumed : p.channel.ring.consumed = p.channel.ring.published
  published : p.channel.stats.published = p.channel.stats.delivered + p.channel.stats.sinkFailures +
    p.channel.stats.decodeFailures + p.channel.stats.overflowed

/-- **At every moment** a record is answered for, lost, in the ring, or in the hands of the sink. -/
theorem Orderly.published_eq (orderly : p.Orderly) :
    p.channel.stats.published = p.channel.stats.delivered + p.channel.stats.sinkFailures +
      p.channel.stats.decodeFailures + p.channel.stats.overflowed + p.channel.ring.length +
        p.inHand.toList.length := by
  obtain ⟨log, accounts, -⟩ := orderly.accounts
  have balance := accounts.balance
  have skipped := accounts.skipped_le
  have upper := accounts.within.consumed_le
  have held : p.held = p.inHand.toList.length := by
    cases busy : p.isBusy with
    | false => rw [(idle_of_not_isBusy busy).2.1, inHand_of_not_isBusy busy]; rfl
    | true =>
      have unchosen := orderly.unchosen
      unfold isBusy at busy
      cases at_ : p.drain.phase with
      | reading | releasing found =>
        rw [chosen?, at_] at unchosen
        cases unchosen
      | delivering found =>
        obtain ⟨f, some⟩ := Option.isSome_iff_exists.1 (orderly.carries found at_)
        rw [held, at_, some]
        rfl
      | _ =>
        rw [at_] at busy
        cases busy
  rw [Tally.answered] at balance
  show p.channel.ring.published = p.channel.tally.delivered + p.channel.tally.sinkFailures +
    p.channel.tally.decodeFailures + p.channel.ring.overflowed +
      (p.channel.ring.published - p.channel.ring.consumed) + _
  omega

theorem Orderly.balanced (orderly : p.Orderly) (ended : p.isEnded = true) :
    p.Balanced ∧ p.unhanded = [] := by
  obtain ⟨left, idle⟩ := left_of_isEnded ended
  obtain ⟨log, accounts, -⟩ := orderly.accounts
  obtain ⟨consumed, -⟩ := accounts.drained idle (orderly.settled left)
  have published := orderly.published_eq
  have none := inHand_of_not_isBusy idle
  have empty : p.channel.ring.length = 0 := by rw [Ring.length, consumed, Nat.sub_self]
  rw [empty, none] at published
  refine ⟨⟨consumed, published⟩, ?_⟩
  rw [unhanded, none, Channel.waiting, empty]
  rfl

end Pipeline

end LogRelay
