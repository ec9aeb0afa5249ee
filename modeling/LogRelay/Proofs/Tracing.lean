/-
# What the loop reads and calls

A list of the sequences that the loop has read goes with it. None is read twice and none out of
turn, and what was not read was overtaken by a whole round of later records. What the loop has still
to do is a list of calls: the one that it has decided on, one for every record that waits, and a
last flush. Once it is told to stop, and as long as nothing more is published, a step makes the
first of these calls or none, and leaves the others; the loop is never left while there is a record
to read.

Key definitions: `Pipeline.Traced`, `Pipeline.decided`, `Pipeline.due`, `Pipeline.Descends`.
Key theorems: `Pipeline.Accounts.readTo_step`, `Pipeline.Traced.step`, `Pipeline.Traced.due_step`,
`Pipeline.Traced.leaves`, `Pipeline.Traced.descends`.
-/
import LogRelay.Proofs.Moving

namespace LogRelay

namespace Pipeline

variable {σ : Type} {sink : Sink σ} {p p' : Pipeline σ} {reads : List Nat}

/-! ### What the loop has read -/

/-- The sequence that the consumer reads in its next step, if it reads one. -/
def reads? (p : Pipeline σ) : Option Nat :=
  match p.drain.phase with
  | .reading => some p.drain.cursor
  | _ => none

/-- Every sequence below was read, or the loop has moved over it. -/
def readTo (p : Pipeline σ) : Nat :=
  match p.drain.phase with
  | .releasing _ | .delivering _ => p.drain.cursor + 1
  | _ => p.drain.cursor

/-- What the loop has copied is what was published, unless the record was given up meanwhile. -/
def Finds (p : Pipeline σ) (log : List Bytes) : Prop :=
  ∀ found (r : Record), p.drain.phase = .releasing found →
    p.channel.ring.consumed ≤ p.drain.cursor → log[p.drain.cursor]? = some r.encode →
      found = .ready (p.channel.geometry.fitted r).encode

/-- **The invariant of a consumer** that has read the sequences in `reads`, while only well-formed
records are published. -/
structure Traced (p : Pipeline σ) (reads : List Nat) : Prop where
  accounts : ∃ log overlap, p.Accounts log overlap ∧
    (∀ encoded ∈ log, ∃ r : Record, encoded = r.encode) ∧ p.Finds log
  /-- No sequence was read twice, and none out of turn. -/
  ordered : reads.Pairwise (· < ·)
  reads_lt : ∀ s ∈ reads, s < p.readTo
  /-- What was not read was overtaken by a whole round. -/
  read : ∀ s < p.readTo, s ∈ reads ∨
    s + p.channel.geometry.slotCount < p.channel.ring.published

theorem reads?_of_calls? {call : SinkCall} (calls : p.calls? = some call) : p.reads? = none := by
  have phase := callsSink_of_calls? calls
  unfold reads?
  cases at_ : p.drain.phase with
  | reading =>
    rw [at_] at phase
    cases phase
  | _ => rfl

theorem cursor_le_readTo (p : Pipeline σ) : p.drain.cursor ≤ p.readTo := by
  unfold readTo
  split <;> omega

theorem floor_le_readTo (p : Pipeline σ) : p.floor ≤ p.readTo := by
  unfold floor readTo
  cases p.drain.phase with
  | releasing found => exact Nat.le_succ _
  | _ => exact Nat.le_refl _

theorem readTo_of_not_isBusy (idle : p.isBusy = false) : p.readTo = p.drain.cursor := by
  unfold isBusy at idle
  unfold readTo
  cases at_ : p.drain.phase with
  | releasing found | delivering found =>
    rw [at_] at idle
    cases idle
  | _ => rfl

theorem readTo_congr (drain : p'.drain = p.drain) : p'.readTo = p.readTo := by
  rw [readTo, readTo, drain]

theorem Traced.fed (traced : p.Traced reads) {more : List Bytes}
    (fed : ∀ log, p.channel.ring.Keeps log → p.channel.ring.Within →
      p.channel.Fed log more p'.channel)
    (encodings : ∀ encoded ∈ more, ∃ r : Record, encoded = r.encode)
    (drain : p'.drain = p.drain) (tally : p'.channel.tally = p.channel.tally) :
    p'.Traced reads := by
  obtain ⟨⟨log, overlap, accounts, earlier, finds⟩, ordered, reads_lt, read⟩ := traced
  have fed := fed log accounts.keeps accounts.within
  have grown : p.channel.ring.published ≤ p'.channel.ring.published := by
    rw [fed.keeps.published, accounts.keeps.published, List.length_append]
    exact Nat.le_add_right _ _
  refine ⟨⟨log ++ more, _, accounts.fed fed drain tally, ?_, ?_⟩, ordered, ?_, ?_⟩
  · intro encoded member
    exact (List.mem_append.1 member).elim (earlier encoded) (encodings encoded)
  · intro found r at_ unlost here
    rw [drain] at at_ unlost here
    have further := fed.consumed_le
    have knows := accounts.knows
    simp only [Knows, at_] at knows
    have inside : p.drain.cursor < log.length := by
      rw [← accounts.keeps.published]
      exact knows.1
    rw [List.getElem?_append_left inside] at here
    rw [fed.geometry]
    exact finds found r at_ (Nat.le_trans further unlost) here
  · rw [readTo_congr drain]
    exact reads_lt
  · intro s below
    rw [readTo_congr drain] at below
    have slots : p'.channel.geometry.slotCount = p.channel.geometry.slotCount :=
      congrArg Geometry.slotCount fed.geometry
    exact (read s below).imp_right fun lapped => by omega

theorem Traced.retuned (traced : p.Traced reads) (threshold : Severity) (running : Bool)
    (notices : List Notice) :
    (p.mapChannel fun c => { c with threshold, running, notices }).Traced reads := by
  obtain ⟨⟨log, overlap, accounts, earlier, finds⟩, ordered, reads_lt, read⟩ := traced
  exact ⟨⟨log, overlap, accounts.retuned threshold running notices, earlier, finds⟩, ordered,
    reads_lt, read⟩

/-- **A step of the loop reads the next sequence**, or it moves on over lost ones, if at all. -/
theorem Accounts.readTo_step {log : List Bytes} {overlap : Nat} (accounts : p.Accounts log overlap)
    (sink : Sink σ) (now : UInt64) :
    (p.reads? = some p.readTo ∧ p.readTo < p.channel.ring.published ∧
        (p.step sink now).readTo = p.readTo + 1) ∨
      (p.reads? = none ∧ p.readTo ≤ (p.step sink now).readTo ∧
        ∀ s, p.readTo ≤ s → s < (p.step sink now).readTo →
          s + p.channel.geometry.slotCount < p.channel.ring.published) := by
  have stays : p.reads? = none → (p.step sink now).readTo = p.readTo →
      p.reads? = none ∧ p.readTo ≤ (p.step sink now).readTo ∧
        ∀ s, p.readTo ≤ s → s < (p.step sink now).readTo →
          s + p.channel.geometry.slotCount < p.channel.ring.published := by
    intro none same
    exact ⟨none, Nat.le_of_eq same.symm, fun s lower upper => by omega⟩
  cases at_ : p.drain.phase with
  | catchingUp snapshot =>
    obtain ⟨phase, stepped, next⟩ := accounts.exists_catchingUp_eq sink at_ now
    have moved : (p.step sink now).readTo = p.channel.ring.consumed := by
      rw [stepped]
      rcases next with rfl | ⟨rfl, -⟩ <;> rfl
    have here : p.readTo = p.drain.cursor := by rw [readTo, at_]
    have gap := accounts.gap
    have floor_le := accounts.floor_le
    simp only [floor, at_] at gap floor_le
    refine .inr ⟨by rw [reads?, at_], by omega, fun s lower upper => ?_⟩
    rcases gap with behind | ahead <;> omega
  | reading =>
    have stepped : p.step sink now = p.enter (.releasing
        (p.channel.ring.read p.drain.cursor p.channel.geometry.slotBytes)) := by
      simp only [Pipeline.step, at_]
    have lt := accounts.knows
    simp only [Knows, at_] at lt
    have here : p.readTo = p.drain.cursor := by rw [readTo, at_]
    refine .inl ⟨by rw [reads?, at_, here], by rw [here]; exact lt, ?_⟩
    rw [stepped, here]
    rfl
  | releasing found =>
    have stepped : p.step sink now =
        (p.mapRing (·.commit (p.drain.cursor + 1))).enter (.delivering found) := by
      simp only [Pipeline.step, at_]
    exact .inr (stays (by rw [reads?, at_]) (by rw [stepped, readTo, readTo, at_]; rfl))
  | delivering found | flushing | closing =>
    obtain ⟨_, _, _, stepped⟩ := exists_step_eq sink (by rw [at_]; rfl) now
    refine .inr (stays (by rw [reads?, at_]) ?_)
    simp only [stepped, readTo, drainAfter, at_]
  | polling | idling | leaving | parked | ended panicked =>
    have idle : p.isBusy = false := by rw [isBusy, at_]
    obtain ⟨unflushed, phase, stepped, there, -⟩ :=
      exists_step_idle sink idle (by rw [at_]; rfl) (by rw [at_]; rintro _ ⟨⟩) now
    refine .inr (stays (by rw [reads?, at_]) ?_)
    rw [stepped, readTo_of_not_isBusy there, readTo_of_not_isBusy idle]

theorem Accounts.of_step_releasing {log : List Bytes} {overlap : Nat}
    (accounts : p.Accounts log overlap) {now : UInt64} {found : Ring.Reading}
    (then_ : (p.step sink now).drain.phase = .releasing found) :
    p.drain.phase = .reading ∧ p.step sink now = p.enter (.releasing found) ∧
      found = p.channel.ring.read p.drain.cursor p.channel.geometry.slotBytes := by
  cases at_ : p.drain.phase with
  | reading =>
    have stepped : p.step sink now = p.enter (.releasing
        (p.channel.ring.read p.drain.cursor p.channel.geometry.slotBytes)) := by
      simp only [Pipeline.step, at_]
    rw [stepped] at then_
    cases then_
    exact ⟨rfl, stepped, rfl⟩
  | catchingUp snapshot =>
    obtain ⟨phase, stepped, next⟩ := accounts.exists_catchingUp_eq sink at_ now
    rw [stepped] at then_
    rcases next with rfl | ⟨rfl, -⟩ <;> cases then_
  | releasing earlier =>
    simp only [Pipeline.step, at_] at then_
    cases then_
  | delivering earlier | flushing | closing =>
    obtain ⟨_, _, _, stepped⟩ := exists_step_eq sink (by rw [at_]; rfl) now
    simp only [stepped, drainAfter, at_] at then_
    cases then_
  | polling | idling | leaving | parked | ended panicked =>
    have idle : p.isBusy = false := by rw [isBusy, at_]
    obtain ⟨unflushed, phase, stepped, there, -⟩ :=
      exists_step_idle sink idle (by rw [at_]; rfl) (by rw [at_]; rintro _ ⟨⟩) now
    rw [← stepped, isBusy, then_] at there
    cases there

/-- **A step of the loop keeps the invariant.** -/
theorem Traced.step (only : sink.OnlyLogs) (traced : p.Traced reads) (now : UInt64) :
    (p.step sink now).Traced (reads ++ p.reads?.toList) := by
  obtain ⟨⟨log, overlap, accounts, encodings, finds⟩, ordered, reads_lt, read⟩ := traced
  have stepped := accounts.step only.neverCommits now
  have slots : (p.step sink now).channel.geometry.slotCount = p.channel.geometry.slotCount :=
    congrArg Geometry.slotCount (p.step_spares sink now).1
  have grown : p.channel.ring.published ≤ (p.step sink now).channel.ring.published := by
    rw [stepped.keeps.published, accounts.keeps.published, List.length_append]
    exact Nat.le_add_right _ _
  refine ⟨⟨_, overlap, stepped, encodings_step only encodings now, ?_⟩, ?_, ?_, ?_⟩
  · intro found r then_ unlost here
    obtain ⟨at_, same, rfl⟩ := accounts.of_step_releasing then_
    rw [givenNext_of_not_callsSink (by rw [at_]; rfl), List.append_nil] at here
    rw [same] at unlost here ⊢
    exact accounts.read_eq here unlost
  · refine List.pairwise_append.2 ⟨ordered, Option.pairwise_toList, ?_⟩
    intro s member t last
    rcases accounts.readTo_step sink now with ⟨one, -⟩ | ⟨none, -⟩
    · cases one.symm.trans (Option.mem_toList.1 last)
      exact reads_lt s member
    · cases none.symm.trans (Option.mem_toList.1 last)
  · intro s member
    rcases accounts.readTo_step sink now with ⟨one, -, moved⟩ | ⟨none, further, -⟩
    · rcases List.mem_append.1 member with old | last
      · exact moved ▸ Nat.lt_succ_of_lt (reads_lt s old)
      · cases one.symm.trans (Option.mem_toList.1 last)
        exact moved ▸ Nat.lt_succ_self _
    · rw [none, Option.toList_none, List.append_nil] at member
      exact Nat.lt_of_lt_of_le (reads_lt s member) further
  · intro s below
    by_cases old : s < p.readTo
    · rcases read s old with member | lapped
      · exact .inl (List.mem_append_left _ member)
      · exact .inr (by omega)
    · rcases accounts.readTo_step sink now with ⟨one, -, moved⟩ | ⟨-, -, lost⟩
      · obtain rfl : s = p.readTo := by omega
        exact .inl (List.mem_append_right _ (by rw [one]; exact List.mem_singleton_self _))
      · have lapped := lost s (Nat.not_lt.1 old) below
        exact .inr (by omega)

theorem Traced.consumed_le (traced : p.Traced reads) {s : Nat} (free : s ∉ reads)
    (recent : p.channel.ring.published ≤ s + p.channel.geometry.slotCount) :
    p.channel.ring.consumed ≤ s := by
  obtain ⟨log, overlap, accounts, -⟩ := traced.accounts
  have later : p.readTo ≤ s := by
    refine Nat.not_lt.1 fun below => ?_
    rcases traced.read s below with member | lapped
    · exact free member
    · omega
  have floor_le := p.floor_le_readTo
  rcases accounts.gap with behind | ahead <;> omega

/-! ### What is still to be done -/

/-- The call that the loop has decided on: it is about to flush, or it has a record that is not in
the ring any more, because it has given the slot back or because writers have taken it. -/
def decided (p : Pipeline σ) : Option SinkCall :=
  match p.drain.phase with
  | .reading =>
    if p.drain.cursor < p.channel.ring.consumed then
      (p.channel.recordAt? p.drain.cursor).map .write
    else none
  | .releasing found =>
    if p.drain.cursor < p.channel.ring.consumed then found.frame?.map .write else none
  | _ => p.calls?

/-- The calls that come after it as long as nothing more is published: one for every record that
waits, and a flush. Once the loop was left there are none. -/
def awaited (p : Pipeline σ) : List SinkCall :=
  if p.hasLeft then [] else p.channel.waiting.map .write ++ [.flush]

/-- All calls that are still to be made. -/
def due (p : Pipeline σ) : List SinkCall := p.decided.toList ++ p.awaited

/-- The loop has decided on no call. -/
def isUndecided (p : Pipeline σ) : Bool :=
  match p.drain.phase with
  | .polling | .catchingUp _ | .idling | .leaving | .parked => true
  | _ => false

theorem due_of_isUndecided (undecided : p.isUndecided = true) :
    p.calls? = none ∧ p.due = p.channel.waiting.map .write ++ [.flush] := by
  unfold isUndecided at undecided
  unfold due decided awaited calls? hasLeft
  cases at_ : p.drain.phase with
  | polling | catchingUp published | idling | leaving | parked => exact ⟨rfl, rfl⟩
  | _ =>
    rw [at_] at undecided
    cases undecided

/-- Where the loop makes a call it is the one that it has decided on. -/
theorem decided_of_calls? {call : SinkCall} (calls : p.calls? = some call) :
    p.decided = some call := by
  unfold decided
  cases at_ : p.drain.phase with
  | reading | releasing found =>
    rw [calls?, at_] at calls
    cases calls
  | _ => exact calls

/-- A record that the loop has decided on is not in the ring any more. -/
theorem Traced.cursor_lt_of_decided (traced : p.Traced reads) {f : Frame}
    (chosen : p.decided = some (.write f)) : p.drain.cursor < p.channel.ring.consumed := by
  obtain ⟨log, overlap, accounts, -⟩ := traced.accounts
  unfold decided at chosen
  cases at_ : p.drain.phase with
  | reading | releasing found =>
    simp only [at_] at chosen
    split at chosen
    · next lost => exact lost
    · cases chosen
  | delivering found =>
    have floor_le := accounts.floor_le
    rw [floor, at_] at floor_le
    exact floor_le
  | _ =>
    rw [calls?, at_] at chosen
    cases chosen

/-- Giving a slot back leaves the loop with the record that it found there. -/
theorem Traced.due_release (traced : p.Traced reads) {found : Ring.Reading}
    (at_ : p.drain.phase = .releasing found) :
    ((p.mapRing (·.commit (p.drain.cursor + 1))).enter (.delivering found)).due = p.due := by
  obtain ⟨log, overlap, accounts, encodings, finds⟩ := traced.accounts
  have floor_le := accounts.floor_le
  have knows := accounts.knows
  simp only [Knows, floor, at_] at knows floor_le
  obtain ⟨published, -⟩ := knows
  obtain ⟨c, committed⟩ : ∃ c : Channel, c =
    { p.channel with ring := p.channel.ring.commit (p.drain.cursor + 1) } := ⟨_, rfl⟩
  have after : ((p.mapRing (·.commit (p.drain.cursor + 1))).enter (.delivering found)).due =
      (found.frame?.map .write).toList ++ (c.waiting.map .write ++ [.flush]) := by
    rw [committed]
    rfl
  rw [after]
  simp only [due, decided, awaited, hasLeft, at_]
  by_cases lost : p.drain.cursor < p.channel.ring.consumed
  · -- writers have given the slot back already
    have same : c = p.channel := by
      have stays : Cursor.raise p.channel.ring.consumed (p.drain.cursor + 1) =
        p.channel.ring.consumed := Nat.max_eq_left lost
      rw [committed, Ring.commit, stays]
    rw [if_pos lost, same]
    rfl
  · have oldest : p.channel.ring.consumed = p.drain.cursor := by omega
    have inside : p.drain.cursor < log.length := by
      rw [← accounts.keeps.published]
      exact published
    obtain ⟨r, encodes⟩ := encodings _ (List.getElem_mem inside)
    have here : log[p.drain.cursor]? = some r.encode := by
      rw [List.getElem?_eq_getElem inside, encodes]
    have record : p.channel.recordAt? p.channel.ring.consumed = found.frame? := by
      rw [Channel.recordAt?_eq, oldest, accounts.read_eq here (Nat.le_of_eq oldest),
        finds found r at_ (Nat.le_of_eq oldest) here]
    have waiting : p.channel.waiting = found.frame?.toList ++ c.waiting := by
      rw [Channel.waiting_eq_commit (by omega), record, oldest, ← committed]
    rw [if_neg lost, waiting, List.map_append, Option.toList_map, List.append_assoc]
    rfl

/-- **A step of a stopped loop makes the call that is due**, if it makes one, and leaves all others
to be made. -/
theorem Traced.due_step (only : sink.OnlyLogs) (traced : p.Traced reads)
    (stopped : p.channel.running = false) (now : UInt64) :
    p.calls?.toList ++ (p.step sink now).due = p.due := by
  obtain ⟨log, overlap, accounts, -⟩ := traced.accounts
  have rests : ∀ q : Pipeline σ, p.isUndecided = true → q.isUndecided = true →
      q.channel.waiting = p.channel.waiting → p.calls?.toList ++ q.due = p.due := by
    intro q here there waiting
    obtain ⟨silent, due⟩ := due_of_isUndecided here
    rw [silent, due, (due_of_isUndecided there).2, waiting]
    rfl
  cases at_ : p.drain.phase with
  | polling =>
    have here : p.isUndecided = true := by rw [isUndecided, at_]
    by_cases behind : p.drain.cursor < p.channel.ring.published
    · have stepped : p.step sink now = p.enter (.catchingUp p.channel.ring.published) := by
        simp only [Pipeline.step, at_, if_pos behind]
      exact rests _ here (by rw [stepped]; rfl) (by rw [stepped]; rfl)
    · have stepped : p.step sink now = p.enter .idling := by
        simp only [Pipeline.step, at_, if_neg behind]
      exact rests _ here (by rw [stepped]; rfl) (by rw [stepped]; rfl)
  | catchingUp snapshot =>
    obtain ⟨phase, stepped, next⟩ := accounts.exists_catchingUp_eq sink at_ now
    rcases next with rfl | ⟨rfl, -⟩
    · exact rests _ (by rw [isUndecided, at_]) (by rw [stepped]; rfl) (by rw [stepped])
    · -- the record that is chosen is the oldest of those that wait
      have here : ¬ p.channel.ring.consumed < p.channel.ring.consumed := Nat.lt_irrefl _
      rw [stepped]
      simp only [due, decided, awaited, calls?, hasLeft, at_, if_neg here]
      rfl
  | reading =>
    have stepped : p.step sink now = p.enter (.releasing
        (p.channel.ring.read p.drain.cursor p.channel.geometry.slotBytes)) := by
      simp only [Pipeline.step, at_]
    rw [stepped]
    simp only [due, decided, awaited, calls?, hasLeft, at_, Channel.recordAt?_eq]
    rfl
  | releasing found =>
    have stepped : p.step sink now =
        (p.mapRing (·.commit (p.drain.cursor + 1))).enter (.delivering found) := by
      simp only [Pipeline.step, at_]
    rw [stepped, traced.due_release at_, calls?, at_]
    rfl
  | delivering found | flushing =>
    obtain ⟨_, _, _, stepped⟩ := exists_step_eq sink (by rw [at_]; rfl) now
    have undecided : (p.step sink now).isUndecided = true := by
      simp only [stepped, isUndecided, drainAfter, at_]
    have served := congrArg Channel.waiting (channel_served_of_stopped only stopped now)
    have waiting : (p.step sink now).channel.waiting = p.channel.waiting := by
      rw [stepped]
      exact served
    rw [(due_of_isUndecided undecided).2, waiting]
    simp only [due, decided, awaited, hasLeft, calls?, at_]
    rfl
  | closing =>
    obtain ⟨_, _, _, stepped⟩ := exists_step_eq sink (by rw [at_]; rfl) now
    rw [stepped]
    simp only [due, decided, awaited, hasLeft, calls?, drainAfter, at_]
    rfl
  | idling =>
    have stepped : p.step sink now = p.enter .leaving := by
      simp only [Pipeline.step, at_, stopped, Bool.not_false, if_true]
    exact rests _ (by rw [isUndecided, at_]) (by rw [stepped]; rfl) (by rw [stepped]; rfl)
  | leaving =>
    have here : p.isUndecided = true := by rw [isUndecided, at_]
    by_cases done : p.channel.ring.published ≤ p.drain.cursor
    · -- nothing waits, so the flush is all that is left
      have stepped : p.step sink now = p.enter .closing := by
        simp only [Pipeline.step, at_, if_pos done]
      have floor_le := accounts.floor_le
      simp only [floor, at_] at floor_le
      have empty : p.channel.ring.length = 0 := by rw [Ring.length]; omega
      have none : p.channel.waiting = [] := by rw [Channel.waiting, empty]; rfl
      obtain ⟨silent, due⟩ := due_of_isUndecided here
      rw [silent, due, none, stepped]
      rfl
    · have stepped : p.step sink now = p.enter .polling := by
        simp only [Pipeline.step, at_, if_neg done]
      exact rests _ here (by rw [stepped]; rfl) (by rw [stepped]; rfl)
  | parked =>
    have stepped : p.step sink now = p.enter .polling := by simp only [Pipeline.step, at_]
    exact rests _ (by rw [isUndecided, at_]) (by rw [stepped]; rfl) (by rw [stepped]; rfl)
  | ended panicked =>
    rw [p.step_ended sink now (by rw [isEnded, at_]), calls?, at_]
    rfl

theorem due_of_isEnded (ended : p.isEnded = true) : p.due = [] := by
  unfold isEnded at ended
  unfold due decided awaited calls? hasLeft
  cases at_ : p.drain.phase with
  | ended panicked => rfl
  | _ =>
    rw [at_] at ended
    cases ended

theorem Traced.leaves (traced : p.Traced reads) {now : UInt64} (inside : p.hasLeft = false)
    (left : (p.step sink now).hasLeft = true) :
    (p.step sink now).channel.ring.published ≤ (p.step sink now).drain.cursor ∧
      (p.step sink now).due = [.flush] := by
  obtain ⟨log, overlap, accounts, -⟩ := traced.accounts
  obtain ⟨done, unflushed, stepped⟩ := accounts.of_step_left inside left
  rw [stepped]
  exact ⟨done, rfl⟩

/-- What a step of a stopped loop comes to. -/
structure Descends (p q : Pipeline σ) : Prop where
  stopped : q.channel.running = false
  published : q.channel.ring.published = p.channel.ring.published
  /-- The call that is made was due, and the others still are. -/
  due : p.calls?.toList ++ q.due = p.due
  /-- What is read is not read again. -/
  reads : p.reads?.toList.length + (q.channel.ring.published - q.readTo) ≤
    p.channel.ring.published - p.readTo
  /-- The end is nearer. -/
  moves : p.isEnded = false → q.movesLeft < p.movesLeft

/-- **A stopped loop descends.** -/
theorem Traced.descends (only : sink.OnlyLogs) (traced : p.Traced reads)
    (stopped : p.channel.running = false) (now : UInt64) : p.Descends (p.step sink now) := by
  obtain ⟨log, overlap, accounts, -⟩ := traced.accounts
  have published := (accounts.step only.neverCommits now).keeps.published
  rw [givenNext_of_stopped only stopped, List.append_nil, ← accounts.keeps.published] at published
  refine ⟨(p.step_spares sink now).2.2.1.trans stopped, published,
    traced.due_step only stopped now, ?_, fun going => ?_⟩
  · rw [published]
    rcases accounts.readTo_step sink now with ⟨one, inside, moved⟩ | ⟨none, further, -⟩
    · rw [one, Option.toList_some, List.length_singleton]
      omega
    · rw [none, Option.toList_none, List.length_nil]
      omega
  · have served := congrArg (fun c : Channel => c.ring.published)
      (channel_served_of_stopped only stopped now)
    exact movesLeft_step_lt sink accounts.knows stopped going now served

/-- A step that is a call leaves the calls that come after it, and reads nothing. -/
theorem Descends.of_calls? {q : Pipeline σ} (descends : p.Descends q) {call : SinkCall}
    (calls : p.calls? = some call) : q.due = p.awaited ∧
      q.channel.ring.published - q.readTo ≤ p.channel.ring.published - p.readTo := by
  obtain ⟨-, -, due, reads, -⟩ := descends
  have here : p.due = [call] ++ p.awaited := by rw [Pipeline.due, decided_of_calls? calls]; rfl
  rw [here, calls] at due
  rw [reads?_of_calls? calls, Option.toList_none, List.length_nil, Nat.zero_add] at reads
  exact ⟨List.append_cancel_left due, reads⟩

theorem Traced.movesLeft_pos (traced : p.Traced reads) {call : SinkCall}
    (calls : p.calls? = some call) : p.isEnded = false ∧ 0 < p.movesLeft := by
  obtain ⟨log, overlap, accounts, -⟩ := traced.accounts
  have phase := callsSink_of_calls? calls
  have going : p.isEnded = false := by
    unfold isEnded
    cases at_ : p.drain.phase with
    | ended panicked =>
      rw [at_] at phase
      cases phase
    | _ => rfl
  refine ⟨going, Nat.pos_of_ne_zero fun none => ?_⟩
  cases going.symm.trans (isEnded_of_movesLeft accounts.knows none)

end Pipeline

end LogRelay
