/-
# Failed writes leave no trace

A write that fails is counted and may be reported. Apart from that, and from what it leaves in the
thread's buffer, everything is as if it had not been made: no sequence is skipped, no slot touched,
and the buffer can be had again. So whatever is written later is published as the same record, in
the same slot, and is read and delivered in the same way.

That is shown by leaving out what failed writes can change (`Channel.hushed`): the reports of failed
writes, the notices and the contents of buffers. What any step does to the rest depends on the rest
only (`Pipeline.hushed_step`, `Desk.hushed_write`), and a failed write does nothing to it. So a run
and the same run without its failed writes cannot be told apart (`Desk.hushed_runBare`).

Key definitions: `Channel.hushed`, `Pipeline.hushed`, `Script.bare`, `Desk`, `DeskEvent`,
`Desk.run`, `Desk.runBare`, `Desk.Indivisible`.
Key theorems: `Pipeline.hushed_step`, `Desk.hushed_write`, `Desk.hushed_next`,
`Desk.hushed_runBare`, `Desk.indivisible_run`.
-/
import LogRelay.Proofs.Accounting
import LogRelay.Proofs.Nesting
import LogRelay.Relay

namespace LogRelay

/-! ### What failed writes can change -/

/-- A buffer without what it holds. -/
def Scratch.hushed (s : Scratch) : Scratch := { state := s.state }

namespace Channel

/-- A channel without the reports of failed writes and without notices. -/
def hushed (c : Channel) : Channel :=
  c.withReports (.ofInterval "write" Throttle.defaultInterval) []

theorem hushed_publish? (c : Channel) (r : Option Record) :
    (c.publish? r).hushed = c.hushed.publish? r := by
  cases r with
  | none => rfl
  | some r => exact (publish_withReports _ _ _ _).symm

/-- What a log call does to the rest of a channel depends on the rest only. -/
theorem hushed_log (c : Channel) (scratch : Scratch) (now : UInt64) (entry : Entry 1) :
    (c.log scratch now entry).1.hushed =
        c.hushed.publish? (c.hushed.record? scratch.state now entry) ∧
      (c.log scratch now entry).2.hushed = scratch.hushed := by
  obtain ⟨reports, notices, bytes, logged, -⟩ := c.exists_log_eq scratch now entry
  rw [logged]
  exact ⟨c.hushed_publish? _, rfl⟩

theorem solo_publish? {c : Channel} (solo : c.ring.Solo) (r : Option Record) :
    (c.publish? r).ring.Solo := by
  cases r with
  | none => exact solo
  | some r =>
    show (c.publish r.encode).ring.Solo
    rw [publish_eq, solo.publishBy_eq]
    exact solo.publish r.encode

end Channel

namespace Pipeline

variable {σ : Type} {sink : Sink σ} {p : Pipeline σ}

/-- A pipeline without what failed writes can change. -/
def hushed (p : Pipeline σ) : Pipeline σ :=
  { p with channel := p.channel.hushed, scratch := p.scratch.hushed }

theorem hushed_act (p : Pipeline σ) (now : UInt64) (a : Act) :
    (p.act now a).hushed = (p.hushed.act now a).hushed := by
  cases a with
  | publish encoded | publishAlone encoded | commit next => rfl
  | log entry =>
    obtain ⟨channel, scratch⟩ := p.channel.hushed_log p.scratch now entry
    obtain ⟨channel', scratch'⟩ := p.channel.hushed.hushed_log p.scratch.hushed now entry
    simp only [act, hushed, channel, scratch, channel', scratch']
    rfl

theorem hushed_acts (now : UInt64) (acts : List Act) (p : Pipeline σ) :
    (acts.foldl (fun p a => p.act now a) p).hushed =
      (acts.foldl (fun p a => p.act now a) p.hushed).hushed := by
  induction acts generalizing p with
  | nil => rfl
  | cons a rest ih =>
    rw [List.foldl_cons, List.foldl_cons, ih (p.act now a), hushed_act, ← ih (p.hushed.act now a)]

theorem hushed_accept (p : Pipeline σ) (now : UInt64) (reply : Sink.Reply σ) :
    (p.accept now reply).hushed = (p.hushed.accept now reply).hushed :=
  hushed_acts now reply.acts { p with sink := reply.state }

theorem hushed_mapChannel {f : Channel → Channel} (spares : ∀ c, (f c).hushed = (f c.hushed).hushed)
    (p : Pipeline σ) : (p.mapChannel f).hushed = (p.hushed.mapChannel f).hushed := by
  show { p with channel := (f p.channel).hushed, scratch := p.scratch.hushed } = _
  rw [spares]
  rfl

theorem hushed_handOver (p : Pipeline σ) (now : UInt64) (f : Frame) :
    (handOver sink p now f).hushed = (handOver sink p.hushed now f).hushed := by
  have acted := p.hushed_accept now (sink.write p.sink f)
  have same : sink.write p.hushed.sink f = sink.write p.sink f := rfl
  simp only [handOver, same]
  cases (sink.write p.sink f).outcome with
  | ok | failed e | panicked =>
    dsimp only
    rw [hushed_mapChannel fun _ => rfl, acted, ← hushed_mapChannel fun _ => rfl]

theorem hushed_deliver (p : Pipeline σ) (now : UInt64) (found : Ring.Reading) :
    (deliver sink p now found).hushed = (deliver sink p.hushed now found).hushed := by
  cases found with
  | overwritten | corrupt e => rfl
  | ready bytes =>
    unfold deliver
    dsimp only
    cases Frame.decode bytes with
    | error e => rfl
    | ok f => exact p.hushed_handOver now f

theorem hushed_flush (p : Pipeline σ) (now : UInt64) :
    (flush sink p now).hushed = (flush sink p.hushed now).hushed := by
  have acted := p.hushed_accept now (sink.flush p.sink)
  have same : sink.flush p.hushed.sink = sink.flush p.sink := rfl
  simp only [flush, same]
  cases (sink.flush p.sink).outcome with
  | ok => exact acted
  | failed e | panicked =>
    dsimp only
    rw [hushed_mapChannel fun _ => rfl, acted, ← hushed_mapChannel fun _ => rfl]

/-- **The consumer does not see failed writes.** What its steps do to the rest depends on the rest
only. -/
theorem hushed_step (p : Pipeline σ) (now : UInt64) :
    (p.step sink now).hushed = (p.hushed.step sink now).hushed := by
  obtain ⟨c, ⟨cursor, unflushed, phase⟩, s, scratch⟩ := p
  cases phase with
  | polling =>
    show hushed (if cursor < c.ring.published then _ else _) =
      hushed (if cursor < c.ring.published then _ else _)
    split <;> rfl
  | idling =>
    show hushed (if !c.running then _ else _) = hushed (if !c.running then _ else _)
    split <;> rfl
  | delivering found =>
    exact congrArg (fun q : Pipeline σ => { q with drain := ⟨q.drain.cursor + 1, true, .polling⟩ })
      (hushed_deliver _ now found)
  | flushing =>
    exact congrArg (fun q : Pipeline σ => { q with drain := ⟨q.drain.cursor, false, .parked⟩ })
      (hushed_flush _ now)
  | closing =>
    exact congrArg (fun q : Pipeline σ =>
      (q.mapChannel fun c => { c with finished := true }).enter (.ended sink.panicsAtEnd))
        (hushed_flush _ now)
  | catchingUp published | reading | releasing found | leaving | parked | ended panicked => rfl

/-! A ring in which nothing is under way stays so. -/

theorem solo_act (solo : p.channel.ring.Solo) (now : UInt64) (a : Act) :
    (p.act now a).channel.ring.Solo := by
  cases a with
  | publish encoded => exact solo.publish encoded
  | publishAlone encoded =>
    have alone : (p.channel.ring.publishBy .single encoded).2.Solo := by
      rw [solo.publishBy_eq]
      exact solo.publish encoded
    exact alone
  | commit next => exact solo.commit next
  | log entry =>
    obtain ⟨reports, notices, bytes, logged, -⟩ := p.channel.exists_log_eq p.scratch now entry
    show (p.channel.log p.scratch now entry).1.ring.Solo
    rw [logged]
    exact Channel.solo_publish? solo _

theorem solo_acts (now : UInt64) (acts : List Act) {p : Pipeline σ}
    (solo : p.channel.ring.Solo) :
    (acts.foldl (fun p a => p.act now a) p).channel.ring.Solo := by
  induction acts generalizing p with
  | nil => exact solo
  | cons a rest ih => exact ih (solo_act solo now a)

theorem solo_served (solo : p.channel.ring.Solo) (sink : Sink σ) (now : UInt64) :
    (p.served sink now).channel.ring.Solo := by
  unfold served
  cases p.reply? sink with
  | none => exact solo
  | some reply => exact solo_acts now reply.acts (p := { p with sink := reply.state }) solo

theorem solo_step (solo : p.channel.ring.Solo) (sink : Sink σ) (now : UInt64) :
    (p.step sink now).channel.ring.Solo := by
  cases at_ : p.drain.phase with
  | delivering found | flushing | closing =>
    obtain ⟨_, _, _, stepped⟩ := exists_step_eq sink (by rw [at_]; rfl) now
    rw [stepped]
    exact solo_served solo sink now
  | releasing found =>
    have given : (p.step sink now).channel =
        (p.mapRing (·.commit (p.drain.cursor + 1))).channel := by
      simp only [step, at_]
      rfl
    rw [given]
    exact solo.commit _
  | _ =>
    rw [channel_step_eq (by rw [at_]; rfl) (by rw [at_]; rintro _ ⟨⟩)]
    exact solo

end Pipeline

/-! ### Without failed writes -/

/-- A script without what its values log. -/
def Script.bare {n : Nat} : Script n → Script n
  | .done => .done
  | .refuses => .refuses
  | .panics => .panics
  | .text piece rest => .text piece rest.bare
  | .logs _ _ rest | .formats _ _ rest => rest.bare

namespace Script

variable {n : Nat}

theorem ending_bare (s : Script n) : s.bare.ending = s.ending := by
  induction s with
  | done | refuses | panics => rfl
  | text piece rest ih | logs h message rest ih | formats h inner rest _ ih => exact ih

theorem texts_bare (s : Script n) : s.bare.texts = s.texts := by
  induction s with
  | done | refuses | panics => rfl
  | text piece rest ih => exact congrArg (piece :: ·) ih
  | logs h message rest ih | formats h inner rest _ ih => exact ih

end Script

/-- An entry without what its values log. -/
def Entry.bare {n : Nat} : Entry n → Entry n
  | .bytes h message => .bytes h message
  | .formatted h script => .formatted h script.bare

namespace Entry

variable {n : Nat}

theorem heading_bare (entry : Entry n) : entry.bare.heading = entry.heading := by
  cases entry <;> rfl

theorem ending_bare (entry : Entry n) : entry.bare.ending = entry.ending := by
  cases entry with
  | bytes h message => rfl
  | formatted h script => exact script.ending_bare

theorem message_bare (entry : Entry n) (room : Nat) :
    entry.bare.message room = entry.message room := by
  cases entry with
  | bytes h message => rfl
  | formatted h script => exact congrArg (List.foldl (fitText room) []) script.texts_bare

end Entry

/-! ### A desk -/

/-- A thread that writes to several channels, each with its consumer. -/
structure Desk {n : Nat} (σ : Fin n → Type) where
  pipelines : ∀ i, Pipeline (σ i)
  /-- The thread's buffer. -/
  scratch : Scratch := {}

/-- What may happen at a desk. -/
inductive DeskEvent (n : Nat)
  /-- The thread logs an entry when its clock reads `now`. -/
  | log (now : UInt64) (entry : Entry n)
  /-- Another thread logs one, from a buffer of its own. -/
  | logElsewhere (scratch : Scratch) (now : UInt64) (entry : Entry n)
  | setThreshold (i : Fin n) (threshold : Severity)
  /-- A consumer is told to stop. -/
  | stop (i : Fin n)
  /-- A consumer makes its next step. -/
  | work (i : Fin n) (now : UInt64)
  /-- The thread gives its buffer back. -/
  | tearDown

namespace Desk

variable {n : Nat} {σ : Fin n → Type}

/-- The desk's thread. -/
def thread (d : Desk σ) : Thread n := ⟨d.scratch, Vector.ofFn fun i => (d.pipelines i).channel⟩

/-- The desk with the channels as a thread leaves them. -/
def withChannels (d : Desk σ) (t : Thread n) : Desk σ :=
  { d with pipelines := fun i => { d.pipelines i with channel := t.channels.get i } }

/-- The desk with one of its pipelines changed. -/
def mapPipeline (d : Desk σ) (i : Fin n) (f : ∀ j, Pipeline (σ j) → Pipeline (σ j)) : Desk σ :=
  { d with pipelines := fun j => if j = i then f j (d.pipelines j) else d.pipelines j }

/-- The desk after one more event. -/
def next (sinks : ∀ i, Sink (σ i)) (d : Desk σ) : DeskEvent n → Desk σ
  | .log now entry =>
    let t := d.thread.log now entry
    { d.withChannels t with scratch := t.scratch }
  | .logElsewhere scratch now entry =>
    d.withChannels (({ d.thread with scratch } : Thread n).log now entry)
  | .setThreshold i threshold =>
    d.mapPipeline i fun _ p => p.mapChannel fun c => { c with threshold }
  | .stop i => d.mapPipeline i fun _ p => p.stop
  | .work i now => d.mapPipeline i fun j p => p.step (sinks j) now
  | .tearDown => { d with scratch := { d.scratch with state := .tornDown } }

/-- The same, but for writes of the thread that fail: those are left out, be it that they fail
themselves or that values log them in the middle of others. -/
def nextBare (sinks : ∀ i, Sink (σ i)) (d : Desk σ) : DeskEvent n → Desk σ
  | .log now entry => if d.thread.fails entry then d else d.next sinks (.log now entry.bare)
  | event => d.next sinks event

/-- The desk after some more events. -/
def run (sinks : ∀ i, Sink (σ i)) (d : Desk σ) (events : List (DeskEvent n)) : Desk σ :=
  events.foldl (next sinks) d

/-- The desk after the same events, as if no write of the thread had failed. -/
def runBare (sinks : ∀ i, Sink (σ i)) (d : Desk σ) (events : List (DeskEvent n)) : Desk σ :=
  events.foldl (nextBare sinks) d

/-- A desk with new relays. -/
def start (settings : Fin n → Settings) (geometry : Fin n → Geometry) (states : ∀ i, σ i) :
    Desk σ :=
  { pipelines := fun i => (Relay.ofGeometry (settings i) (geometry i) (states i)).pipeline }

/-- A desk without what failed writes can change. -/
def hushed (d : Desk σ) : Desk σ where
  pipelines i := (d.pipelines i).hushed
  scratch := d.scratch.hushed

theorem get_channels_thread (d : Desk σ) (i : Fin n) :
    d.thread.channels.get i = (d.pipelines i).channel :=
  Vector.getElem_ofFn i.isLt

/-- The desk with a record published in some of its channels. -/
def put (d : Desk σ) (given : Fin n → Option Record) : Desk σ :=
  { d with pipelines := fun j => (d.pipelines j).mapChannel (·.publish? (given j)) }

variable {d d' : Desk σ} {t : Thread n} {given : Fin n → Option Record} {failures : Fin n → Nat}

/-- Of what writes do, only the records that they publish are left. -/
theorem hushed_withChannels (scratch : Scratch)
    (wrote : ({ d.thread with scratch } : Thread n).Wrote t given failures) :
    (d.withChannels t).hushed = d.hushed.put given := by
  unfold hushed withChannels put
  congr 1
  funext j
  obtain ⟨reports, notices, same, -⟩ := wrote.channels j
  have here : ({ d.thread with scratch } : Thread n).channels.get j = (d.pipelines j).channel :=
    d.get_channels_thread j
  rw [here] at same
  simp only [Pipeline.hushed, same]
  exact congrArg (fun c => ({ (d.pipelines j).hushed with channel := c } : Pipeline _))
    (Channel.hushed_publish? _ _)

/-- **What a write does to the rest** is to publish its record, if it publishes one. -/
theorem hushed_write (sinks : ∀ i, Sink (σ i)) (d : Desk σ) (now : UInt64) (entry : Entry n) :
    (d.next sinks (.log now entry)).hushed = d.hushed.put (d.thread.given now entry) := by
  have wrote := d.thread.wrote_log now entry
  have channels := congrArg Desk.pipelines (hushed_withChannels d.scratch wrote)
  have state : (d.thread.log now entry).scratch.hushed = d.scratch.hushed :=
    congrArg (fun state => ({ state } : Scratch)) wrote.state
  exact congr (congrArg Desk.mk channels) state

theorem get_channels_thread_hushed (d : Desk σ) (i : Fin n) :
    d.hushed.thread.channels.get i = (d.thread.channels.get i).hushed := by
  rw [get_channels_thread, get_channels_thread]
  rfl

theorem given_hushed (d : Desk σ) (now : UInt64) (entry : Entry n) :
    d.hushed.thread.given now entry = d.thread.given now entry := by
  funext j
  rw [Thread.given, Thread.record?, Thread.accepts, Thread.room, get_channels_thread_hushed]
  rfl

/-- What values log in the middle of a write makes no difference to what it publishes. -/
theorem given_bare (t : Thread n) (now : UInt64) (entry : Entry n) :
    t.given now entry.bare = t.given now entry := by
  funext j
  simp only [Thread.given, Thread.record?, Thread.composes, entry.heading_bare, entry.ending_bare,
    entry.message_bare]
  rfl

/-- Who changes one pipeline, and the rest of it after the rest only, does so with the desk. -/
theorem hushed_mapPipeline (d : Desk σ) (i : Fin n) (f : ∀ j, Pipeline (σ j) → Pipeline (σ j))
    (spares : ∀ j p, (f j p).hushed = (f j p.hushed).hushed) :
    (d.mapPipeline i f).hushed = (d.hushed.mapPipeline i f).hushed := by
  unfold hushed mapPipeline
  congr 1
  funext j
  by_cases here : j = i
  · simp only [if_pos here]
    exact spares j _
  · simp only [if_neg here]
    rfl

/-- **No event sees failed writes.** -/
theorem hushed_next (sinks : ∀ i, Sink (σ i)) (d : Desk σ) (event : DeskEvent n) :
    (d.next sinks event).hushed = (d.hushed.next sinks event).hushed := by
  cases event with
  | log now entry =>
    rw [hushed_write, hushed_write, given_hushed]
    rfl
  | logElsewhere scratch now entry =>
    have same : ({ d.hushed.thread with scratch } : Thread n).given now entry =
        ({ d.thread with scratch } : Thread n).given now entry :=
      (given_hushed { d.hushed with scratch } now entry).symm.trans
        (given_hushed { d with scratch } now entry)
    refine (hushed_withChannels scratch (Thread.wrote_log _ now entry)).trans ?_
    rw [← same]
    exact (hushed_withChannels (d := d.hushed) scratch (Thread.wrote_log _ now entry)).symm
  | setThreshold i threshold =>
    exact d.hushed_mapPipeline i (fun _ p => p.mapChannel fun c => { c with threshold })
      fun _ _ => rfl
  | stop i => exact d.hushed_mapPipeline i (fun _ p => p.stop) fun _ _ => rfl
  | work i now =>
    exact d.hushed_mapPipeline i (fun j p => p.step (sinks j) now) fun _ p => p.hushed_step now
  | tearDown => rfl

/-- Without its failed writes, a run comes to the same. -/
theorem hushed_nextBare (sinks : ∀ i, Sink (σ i)) (same : d'.hushed = d.hushed)
    (event : DeskEvent n) :
    (d'.nextBare sinks event).hushed = (d.next sinks event).hushed := by
  cases event with
  | log now entry =>
    have given : d'.thread.given now entry = d.thread.given now entry := by
      rw [← given_hushed, same, given_hushed]
    cases failed : d'.thread.fails entry with
    | true =>
      have skipped : d'.nextBare sinks (.log now entry) = d' := if_pos failed
      have silent : d'.thread.given now entry = fun _ => none := by
        apply Thread.given_eq_none
        rw [Thread.fails, Bool.and_eq_true, Bool.not_eq_true'] at failed
        rw [failed.2, Bool.and_false]
      rw [skipped, hushed_write, ← given, silent, same]
      rfl
    | false =>
      have made : d'.nextBare sinks (.log now entry) = d'.next sinks (.log now entry.bare) :=
        if_neg (by rw [failed]; exact Bool.false_ne_true)
      rw [made, hushed_write, hushed_write, given_bare, given, same]
  | logElsewhere scratch now entry | setThreshold i threshold | stop i | work i now | tearDown =>
    rw [hushed_next, ← same, ← hushed_next]
    rfl

theorem hushed_runBare (sinks : ∀ i, Sink (σ i)) (events : List (DeskEvent n)) {d d' : Desk σ}
    (same : d'.hushed = d.hushed) :
    (d'.runBare sinks events).hushed = (d.run sinks events).hushed := by
  induction events generalizing d d' with
  | nil => exact same
  | cons event rest ih => exact ih (hushed_nextBare sinks same event)

/-- Nothing is under way in any of the rings. -/
def Solo (d : Desk σ) : Prop := ∀ i, (d.pipelines i).channel.ring.Solo

theorem Solo.withChannels (solo : d.Solo) (scratch : Scratch)
    (wrote : ({ d.thread with scratch } : Thread n).Wrote t given failures) :
    (d.withChannels t).Solo := by
  intro j
  obtain ⟨reports, notices, same, -⟩ := wrote.channels j
  have here : ({ d.thread with scratch } : Thread n).channels.get j = (d.pipelines j).channel :=
    d.get_channels_thread j
  rw [here] at same
  show (t.channels.get j).ring.Solo
  rw [same]
  exact Channel.solo_publish? (solo j) (given j)

theorem Solo.mapPipeline (solo : d.Solo) (i : Fin n) (f : ∀ j, Pipeline (σ j) → Pipeline (σ j))
    (keeps : ∀ j p, p.channel.ring.Solo → (f j p).channel.ring.Solo) :
    (d.mapPipeline i f).Solo := by
  intro j
  by_cases here : j = i
  · have changed : (d.mapPipeline i f).pipelines j = f j (d.pipelines j) := if_pos here
    rw [changed]
    exact keeps j _ (solo j)
  · have kept : (d.mapPipeline i f).pipelines j = d.pipelines j := if_neg here
    rw [kept]
    exact solo j

theorem Solo.next (solo : d.Solo) (sinks : ∀ i, Sink (σ i)) (event : DeskEvent n) :
    (d.next sinks event).Solo := by
  cases event with
  | log now entry => exact solo.withChannels d.scratch (d.thread.wrote_log now entry)
  | logElsewhere scratch now entry => exact solo.withChannels scratch (Thread.wrote_log _ now entry)
  | setThreshold i threshold =>
    exact solo.mapPipeline i (fun _ p => p.mapChannel fun c => { c with threshold })
      fun _ _ solo => solo
  | stop i => exact solo.mapPipeline i (fun _ p => p.stop) fun _ _ solo => solo
  | work i now =>
    exact solo.mapPipeline i (fun j p => p.step (sinks j) now)
      fun j _ solo => Pipeline.solo_step solo (sinks j) now
  | tearDown => exact solo

theorem Solo.run (sinks : ∀ i, Sink (σ i)) (events : List (DeskEvent n)) {d : Desk σ}
    (solo : d.Solo) : (d.run sinks events).Solo := by
  induction events generalizing d with
  | nil => exact solo
  | cons event rest ih => exact ih (solo.next sinks event)

/-- A desk at which writes succeed or fail as a whole; `bare` is the same desk without the writes
that failed. -/
structure Indivisible (d bare : Desk σ) : Prop where
  /-- Whatever the thread logs next, that is all that comes of it. -/
  atomic : ∀ now entry, d.thread.WritesAtomically now entry
  /-- Whatever it logs next, it publishes the same record in the same channel. -/
  given_eq : ∀ now entry, bare.thread.given now entry = d.thread.given now entry
  /-- Whatever was published is read in the same way. -/
  shows_iff : ∀ i seq bytes,
    (bare.pipelines i).channel.Shows seq bytes ↔ (d.pipelines i).channel.Shows seq bytes
  /-- All is the same but for the counts and the reports of failed writes and what buffers hold. -/
  hushed_eq : bare.hushed = d.hushed

/-- **Writes are all or nothing**, at every desk and whatever happened there before: whatever any
values logged while they were formatted, and wherever they failed or panicked. -/
theorem indivisible_run (sinks : ∀ i, Sink (σ i)) (settings : Fin n → Settings)
    (geometry : Fin n → Geometry) (states : ∀ i, σ i) (events : List (DeskEvent n)) :
    ((start settings geometry states).run sinks events).Indivisible
      ((start settings geometry states).runBare sinks events) := by
  have solo : (start settings geometry states).Solo := fun i => Ring.Solo.empty (geometry i)
  have same := hushed_runBare sinks events (rfl : (start settings geometry states).hushed = _)
  refine ⟨Thread.writesAtomically _ fun j => ?_, fun now entry => ?_, fun i seq bytes => ?_, same⟩
  · rw [get_channels_thread]
    exact solo.run sinks events j
  · rw [← given_hushed, same, given_hushed]
  · have channel := congrArg (fun d : Desk σ => (d.pipelines i).channel) same
    have shows : Channel.Shows _ seq bytes ↔ Channel.Shows _ seq bytes :=
      iff_of_eq (congrArg (fun c : Channel => c.Shows seq bytes) channel)
    exact shows

end Desk

end LogRelay
