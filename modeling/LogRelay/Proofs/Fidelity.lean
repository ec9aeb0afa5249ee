/-
# What goes into a relay comes out of it

A relay is started, logged to by threads that do not overlap, with its threshold changed and its
consumer let go round its loop now and then, and is stopped, so that the consumer delivers what is
left. Its binary sink writes to a device that never fails. The bytes on the device are then read
back without an error, and the records read are those that were logged and accepted, in order, each
with its message cut to the slot, except for those that were overtaken by a whole ring of later
ones before the consumer came for them.

A ledger says which these are. It knows no ring: it numbers the accepted records, and puts their
numbers into a queue that gives up its front.

Key definitions: `RelayCall`, `Relay.callAll`, `Ledger`, `Ledger.callAll`, `Ledger.Lost`,
`Relay.outcome`, `Serves`.
Key theorems: `Serves.accept`, `Serves.delivers`, `Serves.callAll`, `reads_what_was_logged`.
-/
import LogRelay.Proofs.Delivery
import LogRelay.Proofs.DropQueue
import LogRelay.Proofs.Writing
import LogRelay.Relay

namespace LogRelay

/-! ### Calls -/

/-- What is done to a relay before it is stopped. -/
inductive RelayCall
  /-- A thread logs bytes; its buffer is free and holds what earlier writes left in it. -/
  | logBytes (buffer : Bytes) (now : UInt64) (severity : Severity) (component : UInt8)
      (message : Bytes)
  /-- A thread logs a text. -/
  | logText (buffer : Bytes) (now : UInt64) (severity : Severity) (component : UInt8)
      (text : String)
  /-- The least severity that is written is set. -/
  | setThreshold (threshold : Severity)
  /-- The consumer goes round its loop once. -/
  | iterate (now : UInt64)

namespace Relay

variable {σ : Type}

/-- Lets the consumer go round its loop once. -/
def iterate (sink : Sink σ) (r : Relay σ) (now : UInt64) : Relay σ :=
  { r with pipeline := r.pipeline.iteration sink now }

/-- A call of a relay. -/
def call (sink : Sink σ) (r : Relay σ) : RelayCall → Relay σ
  | .logBytes buffer now severity component message =>
    (r.log ⟨buffer, .free⟩ now (.bytes ⟨⟨0, Nat.one_pos⟩, severity, component⟩ message)).1
  | .logText buffer now severity component text =>
    (r.log ⟨buffer, .free⟩ now (.text ⟨⟨0, Nat.one_pos⟩, severity, component⟩ text)).1
  | .setThreshold threshold => r.setThreshold threshold
  | .iterate now => r.iterate sink now

/-- Calls of a relay, one after the other. -/
def callAll (sink : Sink σ) (r : Relay σ) (calls : List RelayCall) : Relay σ :=
  calls.foldl (call sink) r

/-- Starts a relay, makes the calls, and stops it, the consumer going round its loop once for each
of `times` before the relay looks whether it is done. -/
def outcome (sink : Sink σ) (settings : Settings) (state : σ) (calls : List RelayCall)
    (times : List UInt64) : Except (Failure RelayError) (Except RelayError Unit × Relay σ) := do
  let started ← Relay.start settings state
  let stopping ← (started.callAll sink calls).beginShutdown.mapError .refused
  return (times.foldl (iterate sink) stopping).endShutdown

end Relay

/-! ### The ledger -/

/-- What a relay is to have done. -/
structure Ledger where
  threshold : Severity
  /-- The records that were to be written when they were logged, the first one in front. -/
  accepted : List Record := []
  /-- The numbers of the accepted records: those that the consumer has not come for yet, and those
  that it took. -/
  queue : DropQueue Nat := {}

namespace Ledger

/-- Enters a record, in a relay whose ring holds `capacity` records. -/
def enter (capacity : Nat) (l : Ledger) (r : Record) : Ledger :=
  if r.severity.reaches l.threshold then
    { l with
      accepted := l.accepted ++ [r]
      queue := l.queue.push capacity l.accepted.length }
  else l

/-- Enters a call. -/
def call (capacity : Nat) (l : Ledger) : RelayCall → Ledger
  | .logBytes _ now severity component message =>
    l.enter capacity ⟨now, severity, component, message⟩
  | .logText _ now severity component text => l.enter capacity ⟨now, severity, component, utf8 text⟩
  | .setThreshold threshold => { l with threshold := threshold }
  | .iterate _ => { l with queue := l.queue.take.2 }

/-- Enters calls, one after the other. -/
def callAll (capacity : Nat) (l : Ledger) (calls : List RelayCall) : Ledger :=
  calls.foldl (call capacity) l

/-- The ledger of a relay that was started with `settings`, after some calls. -/
def ofCalls (settings : Settings) (calls : List RelayCall) : Ledger :=
  callAll settings.slotCount { threshold := settings.threshold } calls

/-- Record number `i` is lost: `capacity` later ones were accepted before the consumer took it. -/
def Lost (capacity : Nat) (l : Ledger) (i : Nat) : Prop :=
  i ∉ l.queue.taken ∧ i + capacity < l.accepted.length

instance (capacity : Nat) (l : Ledger) (i : Nat) : Decidable (l.Lost capacity i) := by
  unfold Lost; infer_instance

/-- The accepted records of these numbers, their messages cut to slots of `slotBytes` bytes. -/
def records (slotBytes : Nat) (l : Ledger) (numbers : List Nat) : List Record :=
  numbers.filterMap fun i => l.accepted[i]?.map (·.cut (messageRoom slotBytes))

variable {slotBytes : Nat} {l : Ledger}

theorem records_append (numbers more : List Nat) : l.records slotBytes (numbers ++ more) =
    l.records slotBytes numbers ++ l.records slotBytes more := List.filterMap_append

theorem records_singleton {i : Nat} (h : i < l.accepted.length) :
    l.records slotBytes [i] = [l.accepted[i].cut (messageRoom slotBytes)] := by
  simp only [records, List.filterMap_cons, List.filterMap_nil, List.getElem?_eq_getElem h,
    Option.map_some]

theorem records_enter {numbers : List Nat} (slotBytes capacity : Nat) (r : Record)
    (old : ∀ i ∈ numbers, i < l.accepted.length) :
    (l.enter capacity r).records slotBytes numbers = l.records slotBytes numbers := by
  unfold enter
  split
  · refine List.filterMap_congr fun i member => ?_
    rw [List.getElem?_append_left (old i member)]
  · rfl

theorem length_records (slotBytes : Nat) (l : Ledger) : ∀ numbers : List Nat,
    (∀ i ∈ numbers, i < l.accepted.length) → (l.records slotBytes numbers).length = numbers.length
  | [], _ => rfl
  | i :: rest, inside => by
    have others := length_records slotBytes l rest fun j member =>
      inside j (List.mem_cons_of_mem _ member)
    rw [← List.singleton_append, records_append, records_singleton (inside i List.mem_cons_self),
      List.length_append, List.length_append, others]
    rfl

theorem length_of_mem_records (h : slotBytes ≤ maxMessageLength) {numbers : List Nat} {r : Record}
    (member : r ∈ l.records slotBytes numbers) : r.message.length ≤ maxMessageLength := by
  obtain ⟨i, -, some⟩ := List.mem_filterMap.1 member
  obtain ⟨whole, -, rfl⟩ := Option.map_eq_some_iff.1 some
  simp only [Record.cut, messageRoom, List.length_take]
  omega

end Ledger

/-! ### A pipeline and its ledger -/

/-- The pipeline, between two calls, has done what the ledger says. Its device held `before` when
the relay was started. -/
structure Serves {δ : Type} (view : δ → Bytes) (before : Bytes) (capacity slotBytes : Nat)
    (p : Pipeline δ) (l : Ledger) : Prop where
  capacity_eq : p.channel.geometry.slotCount = capacity
  slotBytes_eq : p.channel.geometry.slotBytes = slotBytes
  threshold : p.channel.threshold = l.threshold
  keeps : p.channel.ring.Keeps
    (l.accepted.map fun r => (r.cut (messageRoom slotBytes)).encode)
  follows : Follows p.channel.ring (List.range l.accepted.length) l.queue
  /-- The consumer's own cursor is behind the ring's at most where there is something to read. -/
  top : ∃ cursor unflushed, p.drain = ⟨cursor, unflushed, .polling⟩ ∧
    cursor ≤ p.channel.ring.consumed ∧
      (p.channel.ring.consumed ≤ cursor ∨ p.channel.ring.consumed < p.channel.ring.published)
  below : ∀ i ∈ l.queue.taken, i < p.channel.ring.consumed
  ordered : l.queue.taken.Pairwise (· < ·)
  covered : ∀ i < p.channel.ring.consumed,
    i ∈ l.queue.taken ∨ i + capacity < l.accepted.length
  written : view p.sink = before ++ (l.records slotBytes l.queue.taken).flatMap Record.encode

namespace Serves

variable {δ : Type} {dev : Device δ} {view : δ → Bytes} {before : Bytes} {capacity slotBytes : Nat}
  {p : Pipeline δ} {l : Ledger}

theorem published_eq (serves : Serves view before capacity slotBytes p l) :
    p.channel.ring.published = l.accepted.length := by
  rw [serves.keeps.published, List.length_map]

theorem channel_publish (c : Channel) (within : c.ring.Within) (encoded : Bytes) :
    c.publish encoded = { c with ring := (c.ring.publish encoded).2 } := by
  unfold Channel.publish
  split
  · rfl
  · rw [Ring.publishAlone_eq_publish within.claimed_eq within.published_le]

theorem accept (serves : Serves view before capacity slotBytes p l) {r : Record}
    (reaches : r.severity.reaches l.threshold = true) :
    Serves view before capacity slotBytes
      (p.mapChannel fun c => { c with
        ring := (c.ring.publish (r.cut (messageRoom slotBytes)).encode).2 })
      (l.enter capacity r) := by
  have within := serves.follows.within
  have lower := within.consumed_le
  have claimed := within.claimed_eq
  have count := serves.published_eq
  have pos := p.channel.geometry.slotCount_pos
  have slots := serves.capacity_eq
  have inside : ∀ i ∈ l.queue.taken, i < l.accepted.length := fun i member => by
    have lt := serves.below i member
    omega
  have entered := Ledger.records_enter slotBytes capacity r inside
  have moved : (p.channel.ring.publish (r.cut (messageRoom slotBytes)).encode).2.consumed =
      max p.channel.ring.consumed (l.accepted.length + 1 - capacity) := by
    rw [Ring.consumed_publish, claimed, count, slots]
  have grown : (l.accepted ++ [r]).length = l.accepted.length + 1 := List.length_append
  rw [Ledger.enter, if_pos reaches] at entered ⊢
  refine ⟨slots, serves.slotBytes_eq, serves.threshold, ?_, ?_, ?_, ?_, ?_, ?_, ?_⟩
  · rw [List.map_append]
    exact serves.keeps.publish _
  · have pushed := serves.follows.publish (r.cut (messageRoom slotBytes)).encode l.accepted.length
    rw [slots] at pushed
    rw [grown, List.range_succ]
    exact pushed
  · obtain ⟨cursor, unflushed, drain, behind, gap⟩ := serves.top
    refine ⟨cursor, unflushed, drain, ?_, .inr ?_⟩
    · show cursor ≤ (p.channel.ring.publish _).2.consumed
      omega
    · show (p.channel.ring.publish _).2.consumed < (p.channel.ring.publish _).2.published
      rw [moved, Ring.published_publish]
      omega
  · intro i member
    rw [DropQueue.taken_push] at member
    have lt := serves.below i member
    show i < (p.channel.ring.publish _).2.consumed
    omega
  · rw [DropQueue.taken_push]
    exact serves.ordered
  · intro i lt
    have lt : i < (p.channel.ring.publish (r.cut (messageRoom slotBytes)).encode).2.consumed := lt
    rw [DropQueue.taken_push, grown]
    by_cases old : i < p.channel.ring.consumed
    · rcases serves.covered i old with taken | lost
      · exact .inl taken
      · exact .inr (by omega)
    · exact .inr (by omega)
  · rw [DropQueue.taken_push, entered]
    exact serves.written

theorem log (serves : Serves view before capacity slotBytes p l)
    (running : p.channel.running = true) (buffer : Bytes) (now : UInt64) (h : Heading 1)
    (message : Bytes) :
    Serves view before capacity slotBytes
      (p.mapChannel fun _ => (p.channel.log ⟨buffer, .free⟩ now (.bytes h message)).1)
      (l.enter capacity ⟨now, h.severity, h.component, message⟩) ∧
    (p.channel.log ⟨buffer, .free⟩ now (.bytes h message)).1.running = true := by
  have accepts : p.channel.accepts h.severity = h.severity.reaches l.threshold := by
    rw [Channel.accepts, Channel.isEnabled, running, Bool.and_true, serves.threshold]
  have cut : p.channel.geometry.fitted ⟨now, h.severity, h.component, message⟩ =
      (Record.mk now h.severity h.component message).cut (messageRoom slotBytes) := by
    rw [Geometry.fitted, serves.slotBytes_eq]
  rw [Channel.log_bytes, accepts, cut]
  cases reaches : h.severity.reaches l.threshold with
  | true =>
    rw [if_pos rfl, channel_publish _ serves.follows.within]
    exact ⟨serves.accept reaches, running⟩
  | false =>
    have refused : l.enter capacity ⟨now, h.severity, h.component, message⟩ = l := by
      rw [Ledger.enter]
      simp only [reaches, Bool.false_eq_true, if_false]
    rw [if_neg Bool.false_ne_true, refused]
    exact ⟨serves, running⟩

/-- The binary sink on a device that never fails takes every frame. -/
theorem write_reliable (reliable : dev.Reliable view) (d : δ) (f : Frame) :
    ∃ d', (binarySink dev).write d f = { state := d' } ∧ view d' = view d ++ f.bytes := by
  obtain ⟨d', all, grown⟩ := reliable.writeAll d f.bytes
  refine ⟨d', ?_, grown⟩
  simp only [binarySink, all, Outcome.ofExcept]

theorem flush_reliable (reliable : dev.Reliable view) (d : δ) :
    ∃ d', (binarySink dev).flush d = { state := d' } ∧ view d' = view d := by
  obtain ⟨d', all, same⟩ := reliable.flush d
  refine ⟨d', ?_, same⟩
  simp only [binarySink, all, Outcome.ofExcept]

/-- As long as something waits, an iteration delivers the front of the queue. -/
theorem delivers (serves : Serves view before capacity slotBytes p l)
    (reliable : dev.Reliable view) (now : UInt64)
    (unread : p.channel.ring.consumed < p.channel.ring.published) :
    Serves view before capacity slotBytes (p.iteration (binarySink dev) now)
      { l with queue := l.queue.take.2 } ∧
      (p.iteration (binarySink dev) now).channel.running = p.channel.running := by
  obtain ⟨cursor, unflushed, drain, behind, -⟩ := serves.top
  have within := serves.follows.within
  have window := within.published_le
  have count := serves.published_eq
  obtain ⟨i, next⟩ : ∃ i, i = p.channel.ring.consumed := ⟨_, rfl⟩
  have inside : i < l.accepted.length := by omega
  have cut : ∀ r, p.channel.geometry.fitted r = r.cut (messageRoom slotBytes) := by
    intro r
    rw [Geometry.fitted, serves.slotBytes_eq]
  obtain ⟨x, kept⟩ : ∃ x, x = l.accepted[i].cut (messageRoom slotBytes) := ⟨_, rfl⟩
  have short : x.message.length ≤ maxMessageLength := by
    rw [kept, ← cut]
    exact Geometry.length_fitted_le _ _
  -- the record is in its slot, cut already when it was logged
  have held := serves.keeps.holds i (by rwa [List.length_map])
    (by rw [List.length_map, ← count]; omega)
  rw [List.getElem_map, ← cut] at held
  have found := Ring.read_of_holds held (Nat.le_refl p.channel.geometry.slotBytes)
  rw [Geometry.fitted_fitted, cut, ← kept] at found
  obtain ⟨d', taken, grown⟩ := write_reliable reliable p.sink ⟨x, x.encode⟩
  have oldest : max (max cursor p.channel.ring.consumed)
      (p.channel.ring.oldestRetained p.channel.ring.published) = i := by
    rw [Ring.oldestRetained]
    omega
  have eq : p.iteration (binarySink dev) now = { p with
      channel := Channel.countDelivered { p.channel with ring := p.channel.ring.commit (i + 1) }
      drain := ⟨i + 1, true, .polling⟩
      sink := d' } := by
    have stepped : (p.atDrain ⟨cursor, unflushed, .polling⟩).iteration (binarySink dev) now = _ :=
      Pipeline.iteration_delivers (by omega) oldest (by omega) found (Frame.decode_encode short)
        taken
    rw [← drain] at stepped
    exact stepped
  have follows := serves.follows.take unread
  have front := serves.follows.take_eq (by rwa [List.length_range, ← count])
  have queue : l.queue.take.2.taken = l.queue.taken ++ [i] := by
    rw [front, next, List.getElem_range]
  have moved : (p.channel.ring.commit (i + 1)).consumed = i + 1 := by
    show max p.channel.ring.consumed (i + 1) = i + 1
    omega
  rw [eq]
  refine ⟨⟨serves.capacity_eq, serves.slotBytes_eq, serves.threshold, serves.keeps.commit _, ?_, ?_,
    ?_, ?_, ?_, ?_⟩, rfl⟩
  · rw [next]
    exact follows
  · refine ⟨i + 1, true, rfl, ?_, .inl ?_⟩
    · exact Nat.le_of_eq moved.symm
    · exact Nat.le_of_eq moved
  · intro j member
    rw [queue, List.mem_append, List.mem_singleton] at member
    show j < (p.channel.ring.commit (i + 1)).consumed
    rcases member with old | rfl
    · have lt := serves.below j old
      omega
    · omega
  · rw [queue, List.pairwise_append]
    refine ⟨serves.ordered, List.pairwise_singleton _ _, ?_⟩
    intro j member k last
    rw [List.mem_singleton.1 last, next]
    exact serves.below j member
  · intro j lt
    have lt : j < (p.channel.ring.commit (i + 1)).consumed := lt
    rw [queue, List.mem_append, List.mem_singleton]
    by_cases last : j = i
    · exact .inl (.inr last)
    · exact (serves.covered j (by omega)).imp_left .inl
  · show view d' = before ++ (l.records slotBytes l.queue.take.2.taken).flatMap Record.encode
    rw [grown, serves.written, queue, Ledger.records_append, Ledger.records_singleton inside,
      List.flatMap_append, List.flatMap_singleton, ← kept, List.append_assoc]

/-- If nothing waits, an iteration of a running consumer changes nothing. -/
theorem rests (serves : Serves view before capacity slotBytes p l)
    (reliable : dev.Reliable view) (now : UInt64) (running : p.channel.running = true)
    (read : p.channel.ring.published ≤ p.channel.ring.consumed) :
    Serves view before capacity slotBytes (p.iteration (binarySink dev) now) l ∧
      (p.iteration (binarySink dev) now).channel = p.channel := by
  obtain ⟨cursor, unflushed, drain, behind, gap⟩ := serves.top
  obtain ⟨d', flushed, same⟩ := flush_reliable reliable p.sink
  have done : p.channel.ring.published ≤ cursor := by omega
  have eq : p.iteration (binarySink dev) now = { p with
      sink := if unflushed then d' else p.sink
      drain := ⟨cursor, false, .polling⟩ } := by
    have stepped : (p.atDrain ⟨cursor, unflushed, .polling⟩).iteration (binarySink dev) now = _ :=
      Pipeline.iteration_rests done running flushed
    rw [← drain] at stepped
    exact stepped
  rw [eq]
  refine ⟨⟨serves.capacity_eq, serves.slotBytes_eq, serves.threshold, serves.keeps,
    serves.follows, ⟨cursor, false, rfl, behind, gap⟩, serves.below, serves.ordered,
    serves.covered, ?_⟩, rfl⟩
  rw [← serves.written]
  cases unflushed with
  | true => exact same
  | false => rfl

/-- A consumer that is told to stop leaves when nothing waits any more. -/
theorem leaves (serves : Serves view before capacity slotBytes p l)
    (reliable : dev.Reliable view) (now : UInt64) (stopped : p.channel.running = false)
    (read : p.channel.ring.published ≤ p.channel.ring.consumed) :
    (p.iteration (binarySink dev) now).drain.phase = .ended false ∧
      (p.iteration (binarySink dev) now).channel = { p.channel with finished := true } ∧
        view (p.iteration (binarySink dev) now).sink = view p.sink := by
  obtain ⟨cursor, unflushed, drain, behind, gap⟩ := serves.top
  obtain ⟨d', flushed, same⟩ := flush_reliable reliable p.sink
  have done : p.channel.ring.published ≤ cursor := by omega
  have stepped : (p.atDrain ⟨cursor, unflushed, .polling⟩).iteration (binarySink dev) now = _ :=
    Pipeline.iteration_leaves done stopped flushed
  rw [← drain] at stepped
  have eq : p.iteration (binarySink dev) now = _ := stepped
  rw [eq]
  exact ⟨rfl, rfl, same⟩

/-- One iteration is one look at the queue. -/
theorem iterate (serves : Serves view before capacity slotBytes p l)
    (reliable : dev.Reliable view) (now : UInt64) (running : p.channel.running = true) :
    Serves view before capacity slotBytes (p.iteration (binarySink dev) now)
        { l with queue := l.queue.take.2 } ∧
      (p.iteration (binarySink dev) now).channel.running = true := by
  by_cases unread : p.channel.ring.consumed < p.channel.ring.published
  · obtain ⟨delivered, same⟩ := serves.delivers reliable now unread
    exact ⟨delivered, same.trans running⟩
  · have read := Nat.not_lt.1 unread
    obtain ⟨rested, same⟩ := serves.rests reliable now running read
    rw [serves.follows.take_of_le read]
    exact ⟨rested, by rw [same, running]⟩

end Serves

/-! ### The whole life of a relay -/

section

variable {δ : Type} {dev : Device δ} {view : δ → Bytes} {before : Bytes} {capacity slotBytes : Nat}

theorem serves_call (reliable : dev.Reliable view) {r : Relay δ} {l : Ledger}
    (serves : Serves view before capacity slotBytes r.pipeline l)
    (running : r.channel.running = true) (c : RelayCall) :
    Serves view before capacity slotBytes (r.call (binarySink dev) c).pipeline
        (l.call capacity c) ∧
      (r.call (binarySink dev) c).channel.running = true ∧
        (r.call (binarySink dev) c).stoppable = r.stoppable := by
  cases c with
  | logBytes buffer now severity component message =>
    obtain ⟨logged, still⟩ := serves.log running buffer now ⟨⟨0, Nat.one_pos⟩, severity, component⟩
      message
    exact ⟨logged, still, rfl⟩
  | logText buffer now severity component text =>
    obtain ⟨logged, still⟩ := serves.log running buffer now ⟨⟨0, Nat.one_pos⟩, severity, component⟩
      (utf8 text)
    exact ⟨logged, still, rfl⟩
  | setThreshold threshold =>
    exact ⟨⟨serves.capacity_eq, serves.slotBytes_eq, rfl, serves.keeps, serves.follows, serves.top,
      serves.below, serves.ordered, serves.covered, serves.written⟩, running, rfl⟩
  | iterate now =>
    obtain ⟨iterated, still⟩ := serves.iterate reliable now running
    exact ⟨iterated, still, rfl⟩

theorem serves_callAll (reliable : dev.Reliable view) (calls : List RelayCall) {r : Relay δ}
    {l : Ledger} (serves : Serves view before capacity slotBytes r.pipeline l)
    (running : r.channel.running = true) :
    Serves view before capacity slotBytes (r.callAll (binarySink dev) calls).pipeline
        (l.callAll capacity calls) ∧
      (r.callAll (binarySink dev) calls).stoppable = r.stoppable := by
  induction calls generalizing r l with
  | nil => exact ⟨serves, rfl⟩
  | cons c rest ih =>
    obtain ⟨served, still, same⟩ := serves_call reliable serves running c
    obtain ⟨all, kept⟩ := ih served still
    exact ⟨all, kept.trans same⟩

theorem iteration_of_ended {σ : Type} {sink : Sink σ} {p : Pipeline σ} {panicked : Bool}
    (now : UInt64) (ended : p.drain.phase = .ended panicked) : p.iteration sink now = p := by
  have done : p.isEnded = true := by rw [Pipeline.isEnded, ended]
  rw [Pipeline.iteration, Pipeline.step_ended sink p now done]
  exact Pipeline.untilTop_of_isTop _ (by rw [ended]; rfl)

theorem foldl_iteration_of_ended {σ : Type} {sink : Sink σ} {p : Pipeline σ} {panicked : Bool}
    (times : List UInt64) (ended : p.drain.phase = .ended panicked) :
    times.foldl (fun p now => p.iteration sink now) p = p := by
  induction times with
  | nil => rfl
  | cons now rest ih => rw [List.foldl_cons, iteration_of_ended now ended, ih]

/-- What is left of a stopped relay whose consumer is done: everything that waited is delivered. -/
structure Served (view : δ → Bytes) (before : Bytes) (slotBytes : Nat) (l : Ledger)
    (p : Pipeline δ) : Prop where
  phase : p.drain.phase = .ended false
  finished : p.channel.finished = true
  written : view p.sink =
    before ++ (l.records slotBytes (l.queue.taken ++ l.queue.waiting)).flatMap Record.encode
  count : p.channel.ring.published - p.channel.ring.overflowed =
    (l.queue.taken ++ l.queue.waiting).length

/-- A consumer that is told to stop delivers all that waits, and is done. -/
theorem served_of_stopped (reliable : dev.Reliable view) (times : List UInt64) {p : Pipeline δ}
    {l : Ledger} (serves : Serves view before capacity slotBytes p l)
    (stopped : p.channel.running = false) (enough : l.queue.waiting.length < times.length) :
    Served view before slotBytes l
      (times.foldl (fun p now => p.iteration (binarySink dev) now) p) := by
  induction times generalizing p l with
  | nil => exact absurd enough (Nat.not_lt_zero _)
  | cons now rest ih =>
    have waiting := serves.follows.length_waiting
    by_cases unread : p.channel.ring.consumed < p.channel.ring.published
    · obtain ⟨delivered, same⟩ := serves.delivers reliable now unread
      have fewer : l.queue.take.2.waiting.length < rest.length := by
        rw [DropQueue.length_waiting_take]
        rw [List.length_cons] at enough
        omega
      obtain ⟨phase, finished, written, count⟩ := ih delivered (same.trans stopped) fewer
      rw [DropQueue.taken_append_waiting_take] at written count
      exact ⟨phase, finished, written, count⟩
    · have read := Nat.not_lt.1 unread
      obtain ⟨phase, channel, sink⟩ := serves.leaves reliable now stopped read
      have none : l.queue.waiting = [] := List.length_eq_zero_iff.1 (by omega)
      have last : (now :: rest).foldl (fun p now => p.iteration (binarySink dev) now) p =
          p.iteration (binarySink dev) now := by
        rw [List.foldl_cons]
        exact foldl_iteration_of_ended rest phase
      have inside := serves.follows.within.consumed_le
      have consumed := serves.follows.consumed
      have overflowed := serves.follows.discarded
      rw [last]
      refine ⟨phase, by rw [channel], ?_, ?_⟩
      · rw [sink, serves.written, none, List.append_nil]
      · rw [channel, none, List.append_nil]
        show p.channel.ring.published - p.channel.ring.overflowed = _
        omega

end

/-- Settings that pass start a relay over a ring of their size, with nothing done yet. -/
theorem exists_serves_start {δ : Type} (view : δ → Bytes) {settings : Settings}
    (ok : settings.check = .ok ())
    (fits : settings.slotCount * settings.slotBytes ≤ Geometry.blockMax) (state : δ) :
    ∃ r, Relay.start settings state = .ok r ∧ r.channel.running = true ∧ r.stoppable = true ∧
      Serves view (view state) settings.slotCount settings.slotBytes r.pipeline
        { threshold := settings.threshold } := by
  obtain ⟨g, geometry, starts⟩ := Relay.start_of_check state ok
  obtain ⟨slots, bytes⟩ := Geometry.eq_of_check geometry
  rw [← slots, ← bytes, ← Geometry.storageBytes] at fits
  rw [if_pos fits] at starts
  refine ⟨Relay.ofGeometry settings g state, starts, rfl, rfl, ?_⟩
  exact {
    capacity_eq := slots
    slotBytes_eq := bytes
    threshold := rfl
    keeps := Ring.keeps_empty g
    follows := Follows.empty g
    top := ⟨0, false, rfl, Nat.le_refl _, .inl (Nat.le_refl _)⟩
    below := fun i member => absurd member List.not_mem_nil
    ordered := .nil
    covered := fun i lt => absurd lt (Nat.not_lt_zero i)
    written := (List.append_nil _).symm }

section

variable {δ : Type} {view : δ → Bytes} {before : Bytes} {capacity slotBytes : Nat} {p : Pipeline δ}
  {l : Ledger}

theorem Serves.waiting_eq (serves : Serves view before capacity slotBytes p l) :
    l.queue.waiting = List.range' p.channel.ring.consumed
      (l.accepted.length - p.channel.ring.consumed) := by
  rw [serves.follows.waiting, List.range_eq_range', List.drop_range', Nat.zero_add, Nat.mul_one]

theorem Serves.mem_iff (serves : Serves view before capacity slotBytes p l) (i : Nat) :
    i ∈ l.queue.taken ++ l.queue.waiting ↔ i < l.accepted.length ∧ ¬ l.Lost capacity i := by
  have count := serves.published_eq
  have lower := serves.follows.within.consumed_le
  have upper := serves.follows.within.published_le
  have slots := serves.capacity_eq
  rw [List.mem_append, serves.waiting_eq, List.mem_range'_1, Ledger.Lost, not_and, Nat.not_lt]
  constructor
  · rintro (taken | ⟨le, lt⟩)
    · have lt := serves.below i taken
      exact ⟨by omega, fun free => absurd taken free⟩
    · exact ⟨by omega, fun _ => by omega⟩
  · rintro ⟨inside, kept⟩
    by_cases passed : i < p.channel.ring.consumed
    · left
      rcases serves.covered i passed with taken | lost
      · exact taken
      · exact Decidable.byContradiction fun free => absurd lost (Nat.not_lt.2 (kept free))
    · right
      omega

theorem Serves.ordered_append (serves : Serves view before capacity slotBytes p l) :
    (l.queue.taken ++ l.queue.waiting).Pairwise (· < ·) := by
  rw [List.pairwise_append]
  refine ⟨serves.ordered, ?_, ?_⟩
  · rw [serves.waiting_eq]
    exact List.pairwise_lt_range'
  · intro i taken j waits
    rw [serves.waiting_eq, List.mem_range'_1] at waits
    exact Nat.lt_of_lt_of_le (serves.below i taken) waits.1

end

theorem beginShutdown_of_stoppable {σ : Type} {r : Relay σ} (stoppable : r.stoppable = true) :
    r.beginShutdown = .ok { r with stoppable := false, pipeline := r.pipeline.stop } := by
  rw [Relay.beginShutdown, if_pos stoppable]

/-- What a stopped relay says: it is done, and its counts are as they were. -/
theorem endShutdown_of_finished {σ : Type} {r : Relay σ} (finished : r.channel.finished = true)
    (phase : r.pipeline.drain.phase = .ended false) :
    r.endShutdown.1 = .ok () ∧ r.endShutdown.2.pipeline.sink = r.pipeline.sink ∧
      r.endShutdown.2.stats = r.stats := by
  have calm : r.consumerPanicked = false := by
    simp only [Relay.consumerPanicked, phase]
    rfl
  simp only [Relay.endShutdown, finished, calm, if_true, Bool.false_eq_true, if_false]
  exact ⟨trivial, rfl, rfl⟩

theorem pipeline_foldl_iterate {σ : Type} (sink : Sink σ) (times : List UInt64) (r : Relay σ) :
    times.foldl (Relay.iterate sink) r = { r with
      pipeline := times.foldl (fun p now => p.iteration sink now) r.pipeline } := by
  induction times generalizing r with
  | nil => rfl
  | cons now rest ih => exact ih _

/-- What a relay leaves behind when it is stopped, and how it reads. -/
structure ReadBack {δ : Type} (dev : Device δ) (view : δ → Bytes) (settings : Settings) (state : δ)
    (calls : List RelayCall) (times : List UInt64) (last : Relay δ) (written : Bytes)
    (frames : List Frame) (numbers : List Nat) : Prop where
  /-- The relay starts, is stopped, and its consumer is done. -/
  outcome : Relay.outcome (binarySink dev) settings state calls times = .ok (.ok (), last)
  stored : view last.pipeline.sink = view state ++ written
  /-- The bytes are read to their end without an error. -/
  readAll : (FrameStream.ofBytes written).readAll =
    (frames.map .ok, ⟨[], written.length, false⟩)
  /-- What is read are accepted records, cut to the slot. -/
  records : frames.map Frame.record =
    (Ledger.ofCalls settings calls).records settings.slotBytes numbers
  ordered : numbers.Pairwise (· < ·)
  /-- All of them are there that are not lost. -/
  complete : ∀ i, i ∈ numbers ↔ i < (Ledger.ofCalls settings calls).accepted.length ∧
    ¬ (Ledger.ofCalls settings calls).Lost settings.slotCount i
  count : frames.length = last.stats.published - last.stats.overflowed

theorem exists_readBack {δ : Type} {dev : Device δ} {view : δ → Bytes}
    (reliable : dev.Reliable view) {settings : Settings} (ok : settings.check = .ok ())
    (fits : settings.slotCount * settings.slotBytes ≤ Geometry.blockMax) (state : δ)
    (calls : List RelayCall) (times : List UInt64)
    (enough : (Ledger.ofCalls settings calls).queue.waiting.length < times.length) :
    ∃ last written frames numbers,
      ReadBack dev view settings state calls times last written frames numbers := by
  obtain ⟨started, starts, running, stoppable, fresh⟩ := exists_serves_start view ok fits state
  obtain ⟨serves, still⟩ := serves_callAll reliable calls fresh running
  obtain ⟨l, def_⟩ : ∃ l, l = Ledger.ofCalls settings calls := ⟨_, rfl⟩
  rw [← def_] at enough
  rw [← Ledger.ofCalls, ← def_] at serves
  -- stopping changes nothing that the ledger speaks of
  have stopping : Serves view (view state) settings.slotCount settings.slotBytes
      (started.callAll (binarySink dev) calls).pipeline.stop l :=
    ⟨serves.capacity_eq, serves.slotBytes_eq, serves.threshold, serves.keeps, serves.follows,
      serves.top, serves.below, serves.ordered, serves.covered, serves.written⟩
  obtain ⟨phase, finished, written, count⟩ :=
    served_of_stopped reliable times stopping rfl enough
  obtain ⟨r, stopped⟩ : ∃ r : Relay δ, r = times.foldl (Relay.iterate (binarySink dev))
    { started.callAll (binarySink dev) calls with
      stoppable := false
      pipeline := (started.callAll (binarySink dev) calls).pipeline.stop } := ⟨_, rfl⟩
  have pipeline : r.pipeline = times.foldl (fun p now => p.iteration (binarySink dev) now)
      (started.callAll (binarySink dev) calls).pipeline.stop := by
    rw [stopped, pipeline_foldl_iterate]
  rw [← pipeline] at phase finished written count
  obtain ⟨ends, sink, stats⟩ := endShutdown_of_finished finished phase
  have outcome : Relay.outcome (binarySink dev) settings state calls times =
      .ok (.ok (), r.endShutdown.2) := by
    rw [Relay.outcome, starts]
    show ((started.callAll (binarySink dev) calls).beginShutdown.mapError Failure.refused >>=
      fun stopping => pure (times.foldl (Relay.iterate (binarySink dev)) stopping).endShutdown) = _
    rw [beginShutdown_of_stoppable (still.trans stoppable)]
    show Except.ok (times.foldl (Relay.iterate (binarySink dev)) _).endShutdown = _
    rw [← stopped, ← ends]
  obtain ⟨kept, records⟩ : ∃ xs, xs = l.records settings.slotBytes (l.queue.taken ++
    l.queue.waiting) := ⟨_, rfl⟩
  rw [← records] at written
  have short : ∀ x ∈ kept, x.message.length ≤ maxMessageLength := by
    intro x member
    refine Ledger.length_of_mem_records ?_ (records ▸ member)
    rw [← serves.slotBytes_eq]
    exact Geometry.slotBytes_le _
  refine ⟨r.endShutdown.2, kept.flatMap Record.encode, kept.map fun x => ⟨x, x.encode⟩,
    l.queue.taken ++ l.queue.waiting, ?_⟩
  refine ⟨outcome, by rw [sink, written], ?_, ?_, serves.ordered_append, ?_, ?_⟩
  · rw [FrameStream.ofBytes, FrameStream.readAll_encodings _ _ short, Nat.zero_add, List.map_map]
    rfl
  · rw [List.map_map, ← def_, ← records]
    exact List.map_id _
  · rw [← def_]
    exact serves.mem_iff
  · have all := Ledger.length_records settings.slotBytes l (l.queue.taken ++ l.queue.waiting)
      fun i member => ((serves.mem_iff i).1 member).1
    rw [List.length_map, records, all, stats]
    exact count.symm

/-- A device that takes five bytes at most per call and is interrupted now and then. -/
def trickling : Device (Nat × Bytes) where
  write
    | (left + 1, stored), _ => (.interrupted, (left, stored))
    | (0, stored), bytes => (.accepted (min 5 bytes.length), (2, stored ++ bytes.take 5))
  flush d := (.ok (), d)
  patience d := d.1
  patience_lt := by
    rintro ⟨left, stored⟩ bytes after h
    cases left with
    | zero => cases h
    | succ n =>
      cases h
      exact Nat.lt_succ_self n

/-- A ring of two slots with room for four bytes of message. -/
def narrow : Settings := { slotCount := 2, slotBytes := 18 }

/-- A refused record, one that is delivered at once, and three that wait for two slots. -/
def crowded : List RelayCall :=
  [.logBytes [] 8 .trace 3 [1], .logText [1] 7 .info 3 "first", .setThreshold .trace, .iterate 9,
    .logBytes [] 10 .trace 3 [2], .logBytes [] 11 .error 3 [3, 4, 5, 6, 7],
    .logText [] 12 .warn 3 "last"]

end LogRelay
