/-
# Sinks that fail

A sink that leaves the channel that feeds it alone can only answer: that it took a record, that it
failed, or with a panic. Whatever it answers, and whenever, the loop goes the same way. It calls the
sink with the same records and flushes it at the same moments, and all that it leaves behind is the
same, but for the counts of records that were taken and of records that were not, and the reports.

That is shown by leaving the answers out (`Pipeline.muted`): what the loop does to a pipeline
without its answers is what it does with a sink that always takes everything. So two runs that began
alike can be told apart by their answers only, whatever the two sinks and the two clocks are. The
calls and answers are kept in a diary, which is true of the sink (`Diary.Genuine`).

Key definitions: `Sink.OnlyAnswers`, `Pipeline.muted`, `Pipeline.answer?`, `Diary`, `Diary.Counts`,
`Diary.Genuine`, `Isolated`.
Key theorems: `Pipeline.muted_step`, `Pipeline.tally_step`, `Diary.Genuine.next`,
`Diary.isolated_run`.
-/
import LogRelay.Proofs.Attribution
import LogRelay.Proofs.Calling

namespace LogRelay

/-! ### Leaving the answers out -/

namespace Sink

variable {σ : Type}

/-- All that a sink does is to answer: it leaves the channel that feeds it alone. -/
def OnlyAnswers (sink : Sink σ) : Prop := sink.ActsBy fun _ => False

theorem OnlyAnswers.acts_eq_nil {sink : Sink σ} (only : sink.OnlyAnswers) (s : σ)
    (call : SinkCall) : (sink.reply s call).acts = [] := by
  apply List.eq_nil_iff_forall_not_mem.2
  cases call with
  | write f => exact only.1 s f
  | flush => exact only.2 s

/-- A sink that takes everything. -/
def taking (panicsAtEnd : Bool) : Sink Unit where
  write s _ := { state := s }
  panicsAtEnd := panicsAtEnd

end Sink

/-- The counts without those of the sink's answers. -/
def Tally.muted (t : Tally) : Tally := { t with delivered := 0, sinkFailures := 0 }

/-- A channel without what depends on the sink's answers or on the clock: two of the counts, the
reports of the consumer, and the notices. -/
def Channel.muted (c : Channel) : Channel :=
  c.books c.tally.muted (.ofInterval "sink" Throttle.defaultInterval)
    (.ofInterval "decode" Throttle.defaultInterval) [] c.finished

namespace Pipeline

variable {σ τ : Type} {sink : Sink σ}

/-- A pipeline without what depends on the sink's answers. -/
def muted (p : Pipeline σ) : Pipeline Unit where
  channel := p.channel.muted
  drain := p.drain
  sink := ()

theorem accept_eq (only : sink.OnlyAnswers) (p : Pipeline σ) (now : UInt64) (call : SinkCall) :
    p.accept now (sink.reply p.sink call) = { p with sink := (sink.reply p.sink call).state } := by
  rw [accept, only.acts_eq_nil]
  rfl

/-- Whatever the sink answers to a record, it is delivered. -/
theorem muted_deliver (only : sink.OnlyAnswers) (p : Pipeline σ) (now : UInt64)
    (found : Ring.Reading) :
    (deliver sink p now found).muted =
      (deliver (.taking sink.panicsAtEnd) p.muted 0 found).muted := by
  cases found with
  | overwritten => rfl
  | corrupt e => rfl
  | ready bytes =>
    unfold deliver
    dsimp only
    cases Frame.decode bytes with
    | error e => rfl
    | ok f =>
      have spared : p.accept now (sink.write p.sink f) = _ := accept_eq only p now (.write f)
      simp only [handOver, spared]
      cases (sink.write p.sink f).outcome <;> rfl

theorem muted_flush (only : sink.OnlyAnswers) (p : Pipeline σ) (now : UInt64) :
    (flush sink p now).muted = p.muted := by
  have spared : p.accept now (sink.flush p.sink) = _ := accept_eq only p now .flush
  simp only [flush, spared]
  cases (sink.flush p.sink).outcome <;> rfl

/-- **The loop does not look at the answers.** Without them, it does what it does with a sink that
takes everything. -/
theorem muted_step (only : sink.OnlyAnswers) (p : Pipeline σ) (now : UInt64) :
    (p.step sink now).muted = (p.muted.step (.taking sink.panicsAtEnd) 0).muted := by
  obtain ⟨c, ⟨cursor, unflushed, phase⟩, s, scratch⟩ := p
  cases phase with
  | polling =>
    show muted (if cursor < c.ring.published then _ else _) =
      muted (if cursor < c.ring.published then _ else _)
    split <;> rfl
  | idling =>
    show muted (if !c.running then _ else _) = muted (if !c.running then _ else _)
    split <;> rfl
  | delivering found =>
    exact congrArg (fun q : Pipeline Unit =>
      { q with drain := ⟨q.drain.cursor + 1, true, .polling⟩ }) (muted_deliver only _ now found)
  | flushing =>
    exact congrArg (fun q : Pipeline Unit =>
      { q with drain := ⟨q.drain.cursor, false, .parked⟩ }) (muted_flush only _ now)
  | closing =>
    exact congrArg (fun q : Pipeline Unit =>
      (q.mapChannel fun c => { c with finished := true }).enter (.ended sink.panicsAtEnd))
        (muted_flush only _ now)
  | catchingUp published | reading | releasing found | leaving | parked | ended panicked => rfl

/-! ### Counting the answers -/

/-- The call of the sink in the next step, if there is one, and how it ends. -/
def answer? (sink : Sink σ) (p : Pipeline σ) : Option (SinkCall × Outcome) :=
  p.calls?.map fun call => (call, (sink.reply p.sink call).outcome)

theorem map_fst_answer? (sink : Sink σ) (p : Pipeline σ) :
    (p.answer? sink).map Prod.fst = p.calls? := by
  rw [answer?, Option.map_map]
  exact congrFun Option.map_id _

/-- What a step counts is what becomes of the record that it delivers. -/
theorem tally_step (sink : Sink σ) (p : Pipeline σ) (now : UInt64) :
    (p.step sink now).channel.tally = p.tallyAfter sink := by
  cases at_ : p.drain.phase with
  | delivering found | flushing | closing =>
    obtain ⟨_, _, _, stepped⟩ := exists_step_eq sink (by rw [at_]; rfl) now
    rw [stepped]
    rfl
  | releasing found =>
    simp only [step, tallyAfter, fate?, at_]
    rfl
  | _ =>
    rw [channel_step_eq (by rw [at_]; rfl) (by rw [at_]; rintro _ ⟨⟩), tallyAfter, fate?, at_]
    rfl

end Pipeline

/-- A record was handed to the sink, and the answer is of a kind. -/
def isAnswered (kind : Outcome → Bool) : Option (SinkCall × Outcome) → Bool
  | some (.write _, outcome) => kind outcome
  | some (.flush, _) | none => false

namespace Pipeline

variable {σ : Type}

/-- A record is counted by the answer to it, and a flush is not. -/
theorem counts_step (sink : Sink σ) (p : Pipeline σ) (now : UInt64) :
    (p.step sink now).channel.tally.delivered = p.channel.tally.delivered +
        [p.answer? sink].countP (isAnswered (· = .ok)) ∧
      (p.step sink now).channel.tally.sinkFailures = p.channel.tally.sinkFailures +
        [p.answer? sink].countP (isAnswered (· ≠ .ok)) := by
  rw [tally_step, tallyAfter, fate?, answer?, calls?, List.countP_singleton, List.countP_singleton]
  cases at_ : p.drain.phase with
  | delivering found =>
    cases found with
    | overwritten | corrupt e => exact ⟨rfl, rfl⟩
    | ready bytes =>
      cases decoded : Frame.decode bytes with
      | error e =>
        simp only [fate, Ring.Reading.frame?, decoded]
        exact ⟨rfl, rfl⟩
      | ok f =>
        simp only [fate, Ring.Reading.frame?, decoded, Except.toOption, Option.map_some, Sink.reply]
        cases (sink.write p.sink f).outcome <;>
          simp [isAnswered, Tally.enter]
  | _ => exact ⟨rfl, rfl⟩

end Pipeline

/-! ### Two runs -/

/-- What may happen while a consumer works. When it happens is up to a clock. -/
inductive Occurrence
  /-- A writer of a mode publishes some bytes. -/
  | publish (mode : WriterMode) (encoded : Bytes)
  /-- The consumer is told to stop. -/
  | stop
  /-- The consumer makes its next access. -/
  | access

/-- A consumer at work, with a line for every occurrence so far: the call of the sink in it, if
there was one, and how it ended. -/
structure Diary (σ : Type) where
  pipeline : Pipeline σ
  calls : List (Option (SinkCall × Outcome)) := []

variable {σ τ : Type} {sink : Sink σ} {sink' : Sink τ} {d : Diary σ} {d' : Diary τ}

namespace Diary

/-- The diary after one more occurrence; number `i` happens when the clock reads `clock i`. -/
def next (sink : Sink σ) (clock : Nat → UInt64) (d : Diary σ) : Occurrence → Diary σ
  | .publish mode encoded =>
    { pipeline := d.pipeline.mapRing fun r => (r.publishBy mode encoded).2
      calls := d.calls ++ [none] }
  | .stop => { pipeline := d.pipeline.stop, calls := d.calls ++ [none] }
  | .access =>
    { pipeline := d.pipeline.step sink (clock d.calls.length)
      calls := d.calls ++ [d.pipeline.answer? sink] }

/-- The diary after some more occurrences. -/
def run (sink : Sink σ) (clock : Nat → UInt64) (d : Diary σ) (events : List Occurrence) : Diary σ :=
  events.foldl (next sink clock) d

/-- What the sink was called with, line by line. -/
def asked (d : Diary σ) : List (Option SinkCall) := d.calls.map (Option.map Prod.fst)

/-- How many records the sink was handed that it gave an answer of a kind to. -/
def answered (d : Diary σ) (kind : Outcome → Bool) : Nat := d.calls.countP (isAnswered kind)

/-- Since the channel was `c`, every record that the sink took was counted as delivered, and every
other one that it was handed as a failure. -/
structure Counts (c : Channel) (d : Diary σ) : Prop where
  delivered : d.pipeline.channel.stats.delivered = c.stats.delivered + d.answered (· = .ok)
  sinkFailures : d.pipeline.channel.stats.sinkFailures =
    c.stats.sinkFailures + d.answered (· ≠ .ok)

theorem Counts.next {c : Channel} (counts : d.Counts c) (sink : Sink σ) (clock : Nat → UInt64)
    (event : Occurrence) : (d.next sink clock event).Counts c := by
  obtain ⟨delivered, sinkFailures⟩ := counts
  cases event with
  | publish mode encoded | stop =>
    refine ⟨?_, ?_⟩
    · simp only [answered, Diary.next, List.countP_append]
      exact delivered
    · simp only [answered, Diary.next, List.countP_append]
      exact sinkFailures
  | access =>
    obtain ⟨taken, refused⟩ := d.pipeline.counts_step sink (clock d.calls.length)
    refine ⟨?_, ?_⟩
    · simp only [answered, Diary.next, List.countP_append, ← Nat.add_assoc]
      exact taken.trans (congrArg (· + _) delivered)
    · simp only [answered, Diary.next, List.countP_append, ← Nat.add_assoc]
      exact refused.trans (congrArg (· + _) sinkFailures)

/-- What a diary says of a sink that began in state `s` is what happened to it. -/
structure Genuine (sink : Sink σ) (s : σ) (d : Diary σ) : Prop where
  /-- The sink is as the calls that are listed have made it: they were made, and no others. -/
  sink_eq : d.pipeline.sink = sink.after s (d.asked.filterMap id)
  /-- The answers that are listed are those that it gives to these calls. -/
  outcomes_eq : (d.calls.filterMap id).map Prod.snd = sink.answers s (d.asked.filterMap id)

theorem Genuine.concat {s : σ} (genuine : d.Genuine sink s) {p : Pipeline σ}
    {line : Option (SinkCall × Outcome)}
    (called : p.sink = sink.after d.pipeline.sink (line.map Prod.fst).toList)
    (answered : (line.map Prod.snd).toList =
      sink.answers d.pipeline.sink (line.map Prod.fst).toList) :
    ({ pipeline := p, calls := d.calls ++ [line] } : Diary σ).Genuine sink s := by
  obtain ⟨sink_eq, outcomes_eq⟩ := genuine
  have asked : ({ pipeline := p, calls := d.calls ++ [line] } : Diary σ).asked.filterMap id =
      d.asked.filterMap id ++ (line.map Prod.fst).toList := by
    simp only [Diary.asked, List.map_append, List.filterMap_append]
    cases line <;> rfl
  refine ⟨?_, ?_⟩
  · rw [asked, Sink.after_append, ← sink_eq]
    exact called
  · rw [asked, Sink.answers_append, ← outcomes_eq, ← sink_eq, ← answered, List.filterMap_append,
      List.map_append]
    cases line <;> rfl

theorem Genuine.next {s : σ} (genuine : d.Genuine sink s) (clock : Nat → UInt64)
    (event : Occurrence) : (d.next sink clock event).Genuine sink s := by
  cases event with
  | publish mode encoded | stop => exact genuine.concat rfl rfl
  | access =>
    refine genuine.concat ?_ ?_
    · rw [Pipeline.map_fst_answer?]
      exact d.pipeline.sink_step sink _
    · rw [Pipeline.answer?]
      cases d.pipeline.calls? <;> rfl

/-- Two consumers are asked for the same, and are the same but for the answers. -/
structure Alike (d : Diary σ) (d' : Diary τ) : Prop where
  muted_eq : d'.pipeline.muted = d.pipeline.muted
  asked_eq : d'.asked = d.asked

theorem Alike.next (alike : d.Alike d') (only : sink.OnlyAnswers) (only' : sink'.OnlyAnswers)
    (atEnd : sink'.panicsAtEnd = sink.panicsAtEnd) (clock clock' : Nat → UInt64)
    (event : Occurrence) : (d.next sink clock event).Alike (d'.next sink' clock' event) := by
  obtain ⟨muted_eq, asked_eq⟩ := alike
  cases event with
  | publish mode encoded =>
    refine ⟨congrArg (Pipeline.mapRing · fun r => (r.publishBy mode encoded).2) muted_eq, ?_⟩
    simp only [asked, Diary.next, List.map_append]
    exact congrArg (· ++ _) asked_eq
  | stop =>
    refine ⟨congrArg Pipeline.stop muted_eq, ?_⟩
    simp only [asked, Diary.next, List.map_append]
    exact congrArg (· ++ _) asked_eq
  | access =>
    refine ⟨?_, ?_⟩
    · simp only [Diary.next]
      rw [Pipeline.muted_step only, Pipeline.muted_step only', muted_eq, atEnd]
    · have same : d'.pipeline.calls? = d.pipeline.calls? :=
        congrArg Pipeline.calls? muted_eq
      simp only [asked, Diary.next, List.map_append, List.map_cons, List.map_nil,
        Pipeline.map_fst_answer?, same]
      exact congrArg (· ++ _) asked_eq

end Diary

/-- What two runs of the loop on a channel `c`, each with its own sink, have in common, and what
the answers of the sinks make of each. -/
structure Isolated (c : Channel) (sink : Sink σ) (s : σ) (d : Diary σ) (sink' : Sink τ) (s' : τ)
    (d' : Diary τ) : Prop where
  /-- Both sinks are handed the same records and flushed at the same moments. -/
  asked_eq : d'.asked = d.asked
  /-- They are called indeed as it is listed, and give the answers that are listed. -/
  genuine : d.Genuine sink s
  genuine' : d'.Genuine sink' s'
  /-- Both loops are at the same place, with the same cursor. -/
  drain_eq : d'.pipeline.drain = d.pipeline.drain
  published_eq : d'.pipeline.channel.stats.published = d.pipeline.channel.stats.published
  consumed_eq : d'.pipeline.channel.ring.consumed = d.pipeline.channel.ring.consumed
  overflowed_eq : d'.pipeline.channel.stats.overflowed = d.pipeline.channel.stats.overflowed
  decodeFailures_eq :
    d'.pipeline.channel.stats.decodeFailures = d.pipeline.channel.stats.decodeFailures
  skipped_eq : d'.pipeline.channel.stats.skipped = d.pipeline.channel.stats.skipped
  /-- All else is the same too, down to the slots of the ring. -/
  muted_eq : d'.pipeline.channel.muted = d.pipeline.channel.muted
  /-- What is delivered and what fails is up to the answers to records. -/
  counts : d.Counts c
  counts' : d'.Counts c

namespace Diary

theorem Alike.run (only : sink.OnlyAnswers) (only' : sink'.OnlyAnswers)
    (atEnd : sink'.panicsAtEnd = sink.panicsAtEnd) (clock clock' : Nat → UInt64)
    (events : List Occurrence) {d : Diary σ} {d' : Diary τ} (alike : d.Alike d') :
    (d.run sink clock events).Alike (d'.run sink' clock' events) := by
  induction events generalizing d d' with
  | nil => exact alike
  | cons event rest ih => exact ih (alike.next only only' atEnd clock clock' event)

theorem Counts.run {c : Channel} (sink : Sink σ) (clock : Nat → UInt64) (events : List Occurrence)
    {d : Diary σ} (counts : d.Counts c) : (d.run sink clock events).Counts c := by
  induction events generalizing d with
  | nil => exact counts
  | cons event rest ih => exact ih (counts.next sink clock event)

theorem Genuine.run {s : σ} (clock : Nat → UInt64) (events : List Occurrence) {d : Diary σ}
    (genuine : d.Genuine sink s) : (d.run sink clock events).Genuine sink s := by
  induction events generalizing d with
  | nil => exact genuine
  | cons event rest ih => exact ih (genuine.next clock event)

/-- **A sink's failures stay its own.** Whatever a channel holds, whatever is published and whenever
the consumer is told to stop: two sinks that only answer are called alike, whatever they answer. -/
theorem isolated_run (only : sink.OnlyAnswers) (only' : sink'.OnlyAnswers)
    (atEnd : sink'.panicsAtEnd = sink.panicsAtEnd) (c : Channel) (s : σ) (s' : τ)
    (clock clock' : Nat → UInt64) (events : List Occurrence) :
    Isolated c sink s (Diary.run sink clock { pipeline := .start c s } events)
      sink' s' (Diary.run sink' clock' { pipeline := .start c s' } events) := by
  have start : Alike { pipeline := .start c s } { pipeline := .start c s' } := ⟨rfl, rfl⟩
  obtain ⟨same, asked⟩ := start.run only only' atEnd clock clock' events
  have counts : Counts c { pipeline := .start c s } := ⟨rfl, rfl⟩
  have counts' : Counts c { pipeline := .start c s' } := ⟨rfl, rfl⟩
  have genuine : Genuine sink s { pipeline := .start c s } := ⟨rfl, rfl⟩
  have genuine' : Genuine sink' s' { pipeline := .start c s' } := ⟨rfl, rfl⟩
  have channels := congrArg Pipeline.channel same
  exact {
    asked_eq := asked
    genuine := genuine.run clock events
    genuine' := genuine'.run clock' events
    drain_eq := congrArg Pipeline.drain same
    published_eq := congrArg (fun c => c.stats.published) channels
    consumed_eq := congrArg (fun c => c.ring.consumed) channels
    overflowed_eq := congrArg (fun c => c.stats.overflowed) channels
    decodeFailures_eq := congrArg (fun c => c.stats.decodeFailures) channels
    skipped_eq := congrArg (fun c => c.stats.skipped) channels
    muted_eq := channels
    counts := counts.run sink clock events
    counts' := counts'.run sink' clock' events }

/-- A sink that fails and panics by turns, and panics in every flush. -/
def sulking : Sink Nat where
  write n _ :=
    { state := n + 1, outcome := if n % 2 = 0 then .failed (.other "full") else .panicked }
  flush n := { state := n, outcome := .panicked }

/-- The loop has the first record in its hands when one more is published, finds that the second is
none, rests, is overrun by three more, and is told to stop. -/
def bumpyNight : List Occurrence :=
  [.publish .claimed (Record.encode ⟨1, .info, 0, []⟩),
    .publish .claimed (List.replicate headerSize 255)] ++
  List.replicate 4 .access ++ [.publish .single (Record.encode ⟨2, .warn, 0, [7]⟩)] ++
  List.replicate 16 .access ++
  [.publish .claimed (Record.encode ⟨3, .error, 0, []⟩),
    .publish .claimed (Record.encode ⟨4, .trace, 0, [8, 9, 10]⟩),
    .publish .single (Record.encode ⟨5, .debug, 0, []⟩), .stop] ++
  List.replicate 16 .access

theorem isolated_run_bumpyNight :
    let c := Channel.ofGeometry .twoSlots .claimed .trace
    let d := Diary.run Census.accepting (fun _ => 0) { pipeline := .start c () } bumpyNight
    let d' := Diary.run sulking UInt64.ofNat { pipeline := .start c 0 } bumpyNight
    Census.accepting.OnlyAnswers ∧ sulking.OnlyAnswers ∧
      sulking.panicsAtEnd = Census.accepting.panicsAtEnd ∧
      Isolated c Census.accepting () d sulking 0 d' ∧
      d.asked.count (some .flush) = 2 ∧ d.pipeline.isEnded = true ∧
      d.pipeline.channel.stats = ⟨6, 4, 1, 0, 0, 1, 0⟩ ∧
      d'.pipeline.channel.stats = ⟨6, 0, 1, 0, 4, 1, 0⟩ := by
  intro c d d'
  have accepting : Census.accepting.OnlyAnswers := by
    refine ⟨?_, ?_⟩
    · intro s f a member
      cases member
    · intro s a member
      cases member
  have sulks : sulking.OnlyAnswers := by
    refine ⟨?_, ?_⟩
    · intro n f a member
      cases member
    · intro n a member
      cases member
  have isolated := isolated_run accepting sulks rfl c () 0 (fun _ => 0) UInt64.ofNat bumpyNight
  exact ⟨accepting, sulks, rfl, isolated, by decide, by decide, by decide, by decide⟩

end Diary

end LogRelay
