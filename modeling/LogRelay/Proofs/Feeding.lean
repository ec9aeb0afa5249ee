/-
# Feeding a channel

A channel is fed by whoever publishes into it: writers, and a sink while it is called. All else
that is done to a channel meanwhile, counting and reporting, leaves its ring alone. `Channel.Fed`
says what publishing does to a ring, no matter how many records and in which mode: the reader's
cursor is moved as far as the new records' slots demand, and every record that it is moved over is
counted as a loss. `Channel.WrittenTo` says what it does not do.

What a step of the consumer does to its channel besides giving a slot back is of two kinds that do
not mix: first the sink acts (`Pipeline.served`), then the consumer keeps its books, which is to
count one fate at most and to report.

Key definitions: `Channel.Fed`, `Channel.WrittenTo`, `Act.encoded?`, `Sink.ActsBy`,
`Sink.OnlyPublishes`, `Pipeline.reply?`, `Pipeline.served`, `Pipeline.given`, `Fate`,
`Pipeline.fate`.
Key theorems: `Channel.Fed.trans`, `Channel.fed_write`, `Pipeline.fed_served`,
`Pipeline.served_spares`, `Pipeline.exists_step_eq`, `Pipeline.fed_deliver`, `Pipeline.fed_flush`.
-/
import LogRelay.Drain
import LogRelay.Proofs.Writing

namespace LogRelay

/-! ### Channels -/

namespace Channel

/-- The records of `more` were published into a channel that had been given those of `log`. -/
structure Fed (c : Channel) (log more : List Bytes) (c' : Channel) : Prop where
  geometry : c'.geometry = c.geometry
  running : c'.running = c.running
  keeps : c'.ring.Keeps (log ++ more)
  within : c'.ring.Within
  consumed : c'.ring.consumed =
    max c.ring.consumed ((log ++ more).length - c.geometry.slotCount)
  /-- A loss is counted for every record that the reader's cursor was moved over. -/
  overflowed : c'.ring.overflowed + c.ring.consumed = c.ring.overflowed + c'.ring.consumed

variable {c c' c'' : Channel} {log more : List Bytes}

theorem fed_nil (keeps : c.ring.Keeps log) (within : c.ring.Within) : c.Fed log [] c where
  geometry := rfl
  running := rfl
  keeps := by rwa [List.append_nil]
  within := within
  consumed := by
    have window := within.published_le
    rw [keeps.published] at window
    rw [List.append_nil]
    omega
  overflowed := rfl

theorem Fed.consumed_le (fed : c.Fed log more c') : c.ring.consumed ≤ c'.ring.consumed :=
  Nat.le_trans (Nat.le_max_left _ _) (Nat.le_of_eq fed.consumed.symm)

theorem Fed.trans {further : List Bytes} (first : c.Fed log more c')
    (second : c'.Fed (log ++ more) further c'') : c.Fed log (more ++ further) c'' where
  geometry := second.geometry.trans first.geometry
  running := second.running.trans first.running
  keeps := by
    rw [← List.append_assoc]
    exact second.keeps
  within := second.within
  consumed := by
    have grown : (log ++ more).length ≤ (log ++ more ++ further).length :=
      (List.sublist_append_left _ _).length_le
    rw [second.consumed, first.consumed, first.geometry, ← List.append_assoc]
    omega
  overflowed := by
    have early := first.overflowed
    have late := second.overflowed
    omega

theorem fed_publishBy (keeps : c.ring.Keeps log) (within : c.ring.Within) (mode : WriterMode)
    (encoded : Bytes) :
    c.Fed log [encoded] { c with ring := (c.ring.publishBy mode encoded).2 } where
  geometry := rfl
  running := rfl
  keeps := by
    show (c.ring.publishBy mode encoded).2.Keeps _
    rw [within.publishBy_eq]
    exact keeps.publish encoded
  within := by
    show (c.ring.publishBy mode encoded).2.Within
    rw [within.publishBy_eq]
    exact within.publish encoded
  consumed := by
    show (c.ring.publishBy mode encoded).2.consumed = _
    rw [within.publishBy_eq, Ring.consumed_publish, keeps.claimed, List.length_append]
    rfl
  overflowed := by
    have upper := within.published_le
    have pos := c.geometry.slotCount_pos
    show (c.ring.publishBy mode encoded).2.overflowed + _ =
      _ + (c.ring.publishBy mode encoded).2.consumed
    rw [within.publishBy_eq, Ring.overflowed_publish, Ring.consumed_publish, within.claimed_eq]
    split <;> omega

theorem fed_publish (keeps : c.ring.Keeps log) (within : c.ring.Within) (encoded : Bytes) :
    c.Fed log [encoded] (c.publish encoded) := by
  unfold publish
  split
  · exact fed_publishBy keeps within .claimed encoded
  · exact fed_publishBy keeps within .single encoded

/-- A channel's counts, reports and notices with others in their place. -/
def books (c : Channel) (tally : Tally) (sinkReports decodeReports : Throttle)
    (notices : List Notice) (finished : Bool) : Channel :=
  { c with tally, sinkReports, decodeReports, notices, finished }

/-- Counting and reporting is not publishing. -/
theorem Fed.books (h : c.Fed log more c') (tally : Tally) (sinkReports decodeReports : Throttle)
    (notices : List Notice) (finished : Bool) :
    c.Fed log more (c'.books tally sinkReports decodeReports notices finished) :=
  ⟨h.geometry, h.running, h.keeps, h.within, h.consumed, h.overflowed⟩

/-- A record was published, if there was one, and failed writes were counted. -/
theorem fed_publish? (keeps : c.ring.Keeps log) (within : c.ring.Within) (r : Option Record)
    (reports : Throttle) (notices : List Notice) :
    c.Fed log (r.map Record.encode).toList ((c.publish? r).withReports reports notices) := by
  have published : c.Fed log (r.map Record.encode).toList (c.publish? r) := by
    cases r with
    | none => exact fed_nil keeps within
    | some r => exact fed_publish keeps within r.encode
  exact ⟨published.geometry, published.running, published.keeps, published.within,
    published.consumed, published.overflowed⟩

/-- An accepted entry feeds the channel with the record that comes of it, if one does. -/
theorem fed_write (keeps : c.ring.Keeps log) (within : c.ring.Within) (now : UInt64)
    (entry : Entry 1) (state : ScratchState) :
    c.Fed log
      ((entry.record? (messageRoom c.geometry.slotBytes) now state).map Record.encode).toList
      (c.write now entry state) := by
  obtain ⟨reports, notices, same, -⟩ := c.exists_write_eq now entry state
  rw [same]
  exact fed_publish? keeps within _ reports notices

theorem fed_log (keeps : c.ring.Keeps log) (within : c.ring.Within) (scratch : Scratch)
    (now : UInt64) (entry : Entry 1) :
    c.Fed log ((c.record? scratch.state now entry).map Record.encode).toList
      (c.log scratch now entry).1 := by
  obtain ⟨reports, notices, bytes, same, -⟩ := c.exists_log_eq scratch now entry
  rw [same]
  exact fed_publish? keeps within _ reports notices

/-- All that publishing and logging leave alone: a channel's settings, its flags and its tally. -/
structure WrittenTo (c c' : Channel) : Prop where
  geometry : c'.geometry = c.geometry
  mode : c'.mode = c.mode
  threshold : c'.threshold = c.threshold
  running : c'.running = c.running
  finished : c'.finished = c.finished
  tally : c'.tally = c.tally

theorem writtenTo_self (c : Channel) : c.WrittenTo c := ⟨rfl, rfl, rfl, rfl, rfl, rfl⟩

theorem WrittenTo.trans (first : c.WrittenTo c') (second : c'.WrittenTo c'') :
    c.WrittenTo c'' where
  geometry := second.geometry.trans first.geometry
  mode := second.mode.trans first.mode
  threshold := second.threshold.trans first.threshold
  running := second.running.trans first.running
  finished := second.finished.trans first.finished
  tally := second.tally.trans first.tally

theorem WrittenTo.accepts (h : c.WrittenTo c') : c'.accepts = c.accepts := by
  funext severity
  rw [Channel.accepts, Channel.accepts, isEnabled, isEnabled, h.threshold, h.running]

theorem writtenTo_publish (c : Channel) (encoded : Bytes) : c.WrittenTo (c.publish encoded) := by
  unfold publish
  split
  · exact ⟨rfl, rfl, rfl, rfl, rfl, rfl⟩
  · exact ⟨rfl, rfl, rfl, rfl, rfl, rfl⟩

theorem writtenTo_publish? (c : Channel) (r : Option Record) (reports : Throttle)
    (notices : List Notice) : c.WrittenTo ((c.publish? r).withReports reports notices) := by
  have published : c.WrittenTo (c.publish? r) := by
    cases r with
    | none => exact c.writtenTo_self
    | some r => exact c.writtenTo_publish r.encode
  exact ⟨published.geometry, published.mode, published.threshold, published.running,
    published.finished, published.tally⟩

theorem writtenTo_write (c : Channel) (now : UInt64) (entry : Entry 1) (state : ScratchState) :
    c.WrittenTo (c.write now entry state) := by
  obtain ⟨reports, notices, same, -⟩ := c.exists_write_eq now entry state
  rw [same]
  exact c.writtenTo_publish? _ reports notices

theorem writtenTo_log (c : Channel) (scratch : Scratch) (now : UInt64) (entry : Entry 1) :
    c.WrittenTo (c.log scratch now entry).1 := by
  obtain ⟨reports, notices, bytes, same, -⟩ := c.exists_log_eq scratch now entry
  rw [same]
  exact c.writtenTo_publish? _ reports notices

end Channel

/-! ### Fates -/

/-- What becomes of a record that the consumer takes from the ring. -/
inductive Fate
  /-- The sink took it. -/
  | delivered
  /-- The sink failed or panicked. -/
  | sinkFailed
  /-- The slot held no record. -/
  | undecodable
  /-- The record was gone. -/
  | overwritten
  deriving DecidableEq, Repr

/-- The counts with one more. -/
def Tally.enter (t : Tally) : Fate → Tally
  | .delivered => { t with delivered := t.delivered + 1 }
  | .sinkFailed => { t with sinkFailures := t.sinkFailures + 1 }
  | .undecodable => { t with decodeFailures := t.decodeFailures + 1 }
  | .overwritten => { t with skipped := t.skipped + 1 }

/-! ### What a sink does -/

/-- The consumer's next step calls the sink. -/
def DrainPhase.callsSink : DrainPhase → Bool
  | delivering _ | flushing | closing => true
  | _ => false

/-- The encoded record that an act publishes, if it publishes one. -/
def Act.encoded? : Act → Option Bytes
  | .publish encoded | .publishAlone encoded => some encoded
  | .commit _ | .log _ => none

/-- The act publishes a well-formed record. -/
def Act.IsPublication (a : Act) : Prop := ∃ r : Record, a.encoded? = some r.encode

/-- All that a sink does to the channel that feeds it is to publish well-formed records. -/
def Sink.OnlyPublishes {σ : Type} (sink : Sink σ) : Prop :=
  (∀ s f, ∀ a ∈ (sink.write s f).acts, a.IsPublication) ∧
    ∀ s, ∀ a ∈ (sink.flush s).acts, a.IsPublication

/-- The act marks records as consumed. -/
def Act.commits : Act → Bool
  | .commit _ => true
  | .publish _ | .publishAlone _ | .log _ => false

/-- The act logs an entry. -/
def Act.logs : Act → Bool
  | .log _ => true
  | .publish _ | .publishAlone _ | .commit _ => false

theorem Act.commits_of_logs {a : Act} (logs : a.logs = true) : a.commits = false := by
  cases a with
  | commit next => cases logs
  | _ => rfl

namespace Sink

variable {σ : Type} {sink : Sink σ}

/-- Whatever a sink does to the channel that feeds it is allowed. -/
def ActsBy (sink : Sink σ) (allowed : Act → Prop) : Prop :=
  (∀ s f, ∀ a ∈ (sink.write s f).acts, allowed a) ∧ ∀ s, ∀ a ∈ (sink.flush s).acts, allowed a

/-- A sink leaves it to the consumer to mark records as consumed. -/
def NeverCommits (sink : Sink σ) : Prop := sink.ActsBy fun a => a.commits = false

/-- A sink uses the channel that feeds it as every other writer does. -/
def OnlyLogs (sink : Sink σ) : Prop := sink.ActsBy fun a => a.logs = true

theorem OnlyPublishes.neverCommits (only : sink.OnlyPublishes) : sink.NeverCommits := by
  have each : ∀ a : Act, a.IsPublication → a.commits = false := by
    rintro a ⟨r, encodes⟩
    cases a with
    | commit next => cases encodes
    | _ => rfl
  exact ⟨fun s f a member => each a (only.1 s f a member),
    fun s a member => each a (only.2 s a member)⟩

theorem OnlyLogs.neverCommits (only : sink.OnlyLogs) : sink.NeverCommits :=
  ⟨fun s f a member => Act.commits_of_logs (only.1 s f a member),
    fun s a member => Act.commits_of_logs (only.2 s a member)⟩

end Sink

namespace Pipeline

variable {σ : Type} {sink : Sink σ} {p : Pipeline σ} {log : List Bytes}

/-- What the sink does when the consumer makes its next step, if that calls the sink. -/
def reply? (sink : Sink σ) (p : Pipeline σ) : Option (Sink.Reply σ) :=
  match p.drain.phase with
  | .delivering _ => p.inHand.map (sink.write p.sink)
  | .flushing | .closing => some (sink.flush p.sink)
  | _ => none

/-- The records that the sink publishes when the consumer makes its next step. -/
def fed (sink : Sink σ) (p : Pipeline σ) : List Bytes :=
  match p.reply? sink with
  | some reply => reply.acts.filterMap Act.encoded?
  | none => []

/-- Where the sink is not called nothing is in the consumer's hands and nothing is published. -/
theorem quiet_of_not_callsSink (quiet : p.drain.phase.callsSink = false) :
    p.inHand = none ∧ p.fed sink = [] := by
  unfold fed reply? inHand
  cases at_ : p.drain.phase with
  | delivering found | flushing | closing =>
    rw [at_] at quiet
    cases quiet
  | _ => exact ⟨rfl, rfl⟩

/-! What the sink does in a step, apart from what the consumer makes of it. -/

/-- The pipeline after what the sink does when the consumer makes its next step. -/
def served (sink : Sink σ) (p : Pipeline σ) (now : UInt64) : Pipeline σ :=
  (p.reply? sink).elim p (p.accept now)

/-- The records that an act publishes. -/
def given (p : Pipeline σ) (now : UInt64) : Act → List Bytes
  | .publish encoded | .publishAlone encoded => [encoded]
  | .commit _ => []
  | .log entry => ((p.channel.record? p.scratch.state now entry).map Record.encode).toList

/-- The records that some acts publish, one after the other. -/
def givenAll (p : Pipeline σ) (now : UInt64) : List Act → List Bytes
  | [] => []
  | a :: rest => p.given now a ++ (p.act now a).givenAll now rest

/-- The records that the sink publishes or logs when the consumer makes its next step. -/
def givenNext (sink : Sink σ) (p : Pipeline σ) (now : UInt64) : List Bytes :=
  (p.reply? sink).elim [] fun reply =>
    ({ p with sink := reply.state } : Pipeline σ).givenAll now reply.acts

/-- A sink that publishes only gives what it publishes. -/
theorem givenAll_eq (now : UInt64) (acts : List Act) (p : Pipeline σ)
    (each : ∀ a ∈ acts, a.IsPublication) : p.givenAll now acts = acts.filterMap Act.encoded? := by
  induction acts generalizing p with
  | nil => rfl
  | cons a rest ih =>
    obtain ⟨r, encodes⟩ := each a List.mem_cons_self
    have first : p.given now a = a.encoded?.toList := by
      cases a with
      | publish encoded | publishAlone encoded => rfl
      | commit next | log entry => cases encodes
    rw [givenAll, first, ih _ fun b member => each b (List.mem_cons_of_mem _ member),
      List.filterMap_cons, encodes]
    rfl

theorem allowed_of_reply {allowed : Act → Prop} (only : sink.ActsBy allowed)
    {reply : Sink.Reply σ} (some : p.reply? sink = some reply) : ∀ a ∈ reply.acts, allowed a := by
  unfold reply? at some
  split at some
  · obtain ⟨f, -, rfl⟩ := Option.map_eq_some_iff.1 some
    exact only.1 p.sink f
  · cases some
    exact only.2 p.sink
  · cases some
    exact only.2 p.sink
  · cases some

/-- Everything that a sink publishes is well-formed. -/
theorem exists_of_mem_fed (only : sink.OnlyPublishes) {encoded : Bytes}
    (member : encoded ∈ p.fed sink) : ∃ r : Record, encoded = r.encode := by
  unfold fed at member
  split at member
  · next reply some =>
    obtain ⟨a, inActs, published⟩ := List.mem_filterMap.1 member
    obtain ⟨r, encodes⟩ := allowed_of_reply only some a inActs
    exact ⟨r, Option.some.inj (published.symm.trans encodes)⟩
  · cases member

theorem givenNext_eq (only : sink.OnlyPublishes) (now : UInt64) :
    p.givenNext sink now = p.fed sink := by
  unfold givenNext fed
  cases some : p.reply? sink with
  | none => rfl
  | some reply => exact givenAll_eq now reply.acts _ (allowed_of_reply only some)

theorem fed_act (keeps : p.channel.ring.Keeps log) (within : p.channel.ring.Within)
    (now : UInt64) {a : Act} (never : a.commits = false) :
    p.channel.Fed log (p.given now a) (p.act now a).channel := by
  cases a with
  | publish encoded => exact Channel.fed_publishBy keeps within .claimed encoded
  | publishAlone encoded => exact Channel.fed_publishBy keeps within .single encoded
  | commit next => cases never
  | log entry => exact Channel.fed_log keeps within p.scratch now entry

theorem fed_acts (now : UInt64) : ∀ (acts : List Act) {p : Pipeline σ} {log : List Bytes},
    p.channel.ring.Keeps log → p.channel.ring.Within → (∀ a ∈ acts, a.commits = false) →
      p.channel.Fed log (p.givenAll now acts) (acts.foldl (fun p a => p.act now a) p).channel
  | [], _, _, keeps, within, _ => Channel.fed_nil keeps within
  | a :: rest, p, log, keeps, within, each => by
    have first := fed_act keeps within now (each a List.mem_cons_self)
    exact first.trans (fed_acts now rest first.keeps first.within fun b member =>
      each b (List.mem_cons_of_mem _ member))

/-- **What the sink does in a step feeds the channel.** -/
theorem fed_served (never : sink.NeverCommits) (keeps : p.channel.ring.Keeps log)
    (within : p.channel.ring.Within) (now : UInt64) :
    p.channel.Fed log (p.givenNext sink now) (p.served sink now).channel := by
  unfold served givenNext
  cases some : p.reply? sink with
  | none => exact Channel.fed_nil keeps within
  | some reply =>
    have start : ({ p with sink := reply.state } : Pipeline σ).channel.ring.Keeps log := keeps
    exact fed_acts now reply.acts start within (allowed_of_reply never some)

/-- What an act leaves alone: the consumer, and whether its buffer can be had. -/
theorem act_spares (p : Pipeline σ) (now : UInt64) (a : Act) :
    p.channel.WrittenTo (p.act now a).channel ∧ (p.act now a).drain = p.drain ∧
      (p.act now a).scratch.state = p.scratch.state := by
  cases a with
  | log entry =>
    obtain ⟨_, _, _, same, -⟩ := p.channel.exists_log_eq p.scratch now entry
    refine ⟨p.channel.writtenTo_log p.scratch now entry, rfl, ?_⟩
    show (p.channel.log p.scratch now entry).2.state = _
    rw [same]
  | _ => exact ⟨⟨rfl, rfl, rfl, rfl, rfl, rfl⟩, rfl, rfl⟩

theorem acts_spare (now : UInt64) (acts : List Act) (p : Pipeline σ) :
    p.channel.WrittenTo (acts.foldl (fun p a => p.act now a) p).channel ∧
      (acts.foldl (fun p a => p.act now a) p).drain = p.drain ∧
      (acts.foldl (fun p a => p.act now a) p).scratch.state = p.scratch.state := by
  induction acts generalizing p with
  | nil => exact ⟨p.channel.writtenTo_self, rfl, rfl⟩
  | cons a rest ih =>
    obtain ⟨written, drain, state⟩ := p.act_spares now a
    obtain ⟨others, later, last⟩ := ih (p.act now a)
    exact ⟨written.trans others, later.trans drain, last.trans state⟩

theorem served_spares (sink : Sink σ) (p : Pipeline σ) (now : UInt64) :
    p.channel.WrittenTo (p.served sink now).channel ∧ (p.served sink now).drain = p.drain ∧
      (p.served sink now).scratch.state = p.scratch.state := by
  unfold served
  cases p.reply? sink with
  | none => exact ⟨p.channel.writtenTo_self, rfl, rfl⟩
  | some reply => exact acts_spare now reply.acts { p with sink := reply.state }

/-! What the consumer makes of it. -/

/-- What the consumer counts for what it copied out. -/
def fate (sink : Sink σ) (p : Pipeline σ) : Ring.Reading → Fate
  | .overwritten => .overwritten
  | .corrupt _ => .undecodable
  | .ready bytes =>
    match Frame.decode bytes with
    | .error _ => .undecodable
    | .ok f =>
      match (sink.write p.sink f).outcome with
      | .ok => .delivered
      | .failed _ | .panicked => .sinkFailed

/-- The pipeline after the consumer counted and reported. -/
def booked (p : Pipeline σ) (tally : Tally) (sinkReports decodeReports : Throttle)
    (notices : List Notice) : Pipeline σ :=
  p.mapChannel (·.books tally sinkReports decodeReports notices p.channel.finished)

/-- **Delivering is to let the sink act and to count one fate.** -/
theorem exists_deliver_eq (sink : Sink σ) (now : UInt64) {found : Ring.Reading}
    (at_ : p.drain.phase = .delivering found) :
    ∃ sinkReports decodeReports notices, deliver sink p now found =
      (p.served sink now).booked (p.channel.tally.enter (p.fate sink found)) sinkReports
        decodeReports notices := by
  have tally := (p.served_spares sink now).1.tally
  rw [← tally]
  unfold served reply? inHand
  rw [at_]
  cases found with
  | overwritten => exact ⟨_, _, _, rfl⟩
  | corrupt e => exact ⟨_, _, _, rfl⟩
  | ready bytes =>
    cases decoded : Frame.decode bytes with
    | error e =>
      simp only [deliver, fate, decoded]
      exact ⟨_, _, _, rfl⟩
    | ok f =>
      simp only [deliver, fate, decoded, handOver]
      cases (sink.write p.sink f).outcome with
      | ok => exact ⟨_, _, _, rfl⟩
      | failed e => exact ⟨_, _, _, rfl⟩
      | panicked => exact ⟨_, _, _, rfl⟩

/-- Flushing is to let the sink act and to report. -/
theorem exists_flush_eq (sink : Sink σ) (now : UInt64)
    (at_ : p.drain.phase = .flushing ∨ p.drain.phase = .closing) :
    ∃ sinkReports decodeReports notices, flush sink p now =
      (p.served sink now).booked p.channel.tally sinkReports decodeReports notices := by
  have tally := (p.served_spares sink now).1.tally
  have called : p.served sink now = p.accept now (sink.flush p.sink) := by
    rcases at_ with at_ | at_ <;> simp only [served, reply?, at_, Option.elim]
  rw [← tally, flush, called]
  cases (sink.flush p.sink).outcome with
  | ok => exact ⟨_, _, _, rfl⟩
  | failed e => exact ⟨_, _, _, rfl⟩
  | panicked => exact ⟨_, _, _, rfl⟩

/-- What the consumer counts in its next step, if it counts anything. -/
def fate? (sink : Sink σ) (p : Pipeline σ) : Option Fate :=
  match p.drain.phase with
  | .delivering found => some (p.fate sink found)
  | _ => none

/-- The tally after the next step. -/
def tallyAfter (sink : Sink σ) (p : Pipeline σ) : Tally :=
  (p.fate? sink).elim p.channel.tally p.channel.tally.enter

/-- Where the consumer goes when the sink was called. -/
def drainAfter (sink : Sink σ) (p : Pipeline σ) : Drain :=
  match p.drain.phase with
  | .delivering _ => ⟨p.drain.cursor + 1, true, .polling⟩
  | .closing => ⟨p.drain.cursor, p.drain.unflushed, .ended sink.panicsAtEnd⟩
  | _ => ⟨p.drain.cursor, false, .parked⟩

/-- Whether the consumer is done after the next step. -/
def finishedAfter (p : Pipeline σ) : Bool :=
  match p.drain.phase with
  | .closing => true
  | _ => p.channel.finished

/-- **A step that calls the sink** lets it act; then the consumer counts, reports and moves on. -/
theorem exists_step_eq (sink : Sink σ) (calls : p.drain.phase.callsSink = true) (now : UInt64) :
    ∃ sinkReports decodeReports notices, p.step sink now =
      { (p.served sink now).mapChannel (·.books (p.tallyAfter sink) sinkReports decodeReports
          notices p.finishedAfter) with drain := p.drainAfter sink } := by
  obtain ⟨written, same, -⟩ := p.served_spares sink now
  cases at_ : p.drain.phase with
  | delivering found =>
    obtain ⟨sinkReports, decodeReports, notices, delivered⟩ := exists_deliver_eq sink now at_
    refine ⟨sinkReports, decodeReports, notices, ?_⟩
    simp only [step, at_, delivered, tallyAfter, fate?, finishedAfter, drainAfter, Option.elim]
    rw [← same, ← written.finished]
    rfl
  | flushing =>
    obtain ⟨sinkReports, decodeReports, notices, flushed⟩ := exists_flush_eq sink now (.inl at_)
    refine ⟨sinkReports, decodeReports, notices, ?_⟩
    simp only [step, at_, flushed, tallyAfter, fate?, finishedAfter, drainAfter, Option.elim]
    rw [← same, ← written.finished]
    rfl
  | closing =>
    obtain ⟨sinkReports, decodeReports, notices, flushed⟩ := exists_flush_eq sink now (.inr at_)
    refine ⟨sinkReports, decodeReports, notices, ?_⟩
    simp only [step, at_, flushed, tallyAfter, fate?, finishedAfter, drainAfter, Option.elim]
    rw [← same]
    rfl
  | polling | catchingUp published | reading | releasing found | idling | leaving | parked
  | ended panicked =>
    rw [at_] at calls
    cases calls

theorem fed_deliver (only : sink.OnlyPublishes) (keeps : p.channel.ring.Keeps log)
    (within : p.channel.ring.Within) (now : UInt64) {found : Ring.Reading}
    (at_ : p.drain.phase = .delivering found) :
    p.channel.Fed log (p.fed sink) (deliver sink p now found).channel ∧
      (deliver sink p now found).drain = p.drain := by
  obtain ⟨_, _, _, same⟩ := exists_deliver_eq sink now at_
  have fed := fed_served only.neverCommits keeps within now
  rw [givenNext_eq only] at fed
  rw [same]
  exact ⟨fed.books _ _ _ _ _, (p.served_spares sink now).2.1⟩

theorem fed_flush (only : sink.OnlyPublishes) (keeps : p.channel.ring.Keeps log)
    (within : p.channel.ring.Within) (now : UInt64)
    (at_ : p.drain.phase = .flushing ∨ p.drain.phase = .closing) :
    p.channel.Fed log (p.fed sink) (flush sink p now).channel ∧
      (flush sink p now).drain = p.drain := by
  obtain ⟨_, _, _, same⟩ := exists_flush_eq sink now at_
  have fed := fed_served only.neverCommits keeps within now
  rw [givenNext_eq only] at fed
  rw [same]
  exact ⟨fed.books _ _ _ _ _, (p.served_spares sink now).2.1⟩

end Pipeline

end LogRelay
