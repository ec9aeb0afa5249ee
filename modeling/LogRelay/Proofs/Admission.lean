/-
# What a relay takes

Callers log entries, set the threshold and stop the relay, in any order and as often as they like,
while the consumer works and its sink may log as well. Which records are published is settled by
these requests alone. A gate reads it off their list: it has the threshold that is in force, and it
is open until the relay is stopped.

An entry that the gate admits comes to a record if the thread's buffer can be had and formatting
ends well, and otherwise to a failed write. What values log while an entry is formatted is admitted
or not by the same gate, and comes to failed writes. An entry that the gate does not admit changes
nothing, of the relay or of anything else that its message would touch.

Key definitions: `RelayEvent`, `Request`, `Gate`, `Gate.records`, `Gate.writes`, `Admission`,
`Admission.Lawful`.
Key theorems: `Channel.admits_log`, `Pipeline.givenNext_eq_records`, `Admission.Inv.consume`,
`Admission.lawful_run`.
-/
import LogRelay.Proofs.Accounting
import LogRelay.Relay

namespace LogRelay

/-! ### Requests -/

/-- What callers ask of a relay. -/
inductive Request
  /-- An entry is logged from a thread whose buffer is in some state. -/
  | write (state : ScratchState) (now : UInt64) (entry : Entry 1)
  /-- The threshold is set. -/
  | setThreshold (threshold : Severity)
  /-- The relay is stopped. -/
  | stop

/-- What decides on an entry. -/
structure Gate where
  /-- The threshold in force. -/
  threshold : Severity
  /-- The relay was not stopped yet. -/
  isOpen : Bool := true
  deriving DecidableEq, Repr

namespace Gate

/-- Whether a severity is let through. -/
def admits (g : Gate) (severity : Severity) : Bool := severity.reaches g.threshold && g.isOpen

/-- The gate after a request. -/
def after (g : Gate) : Request → Gate
  | .write .. => g
  | .setThreshold threshold => { g with threshold }
  | .stop => { g with isOpen := false }

/-- The record that comes of a request, in slots with room for so long a message. -/
def record? (g : Gate) (room : Nat) : Request → Option Record
  | .write state now entry =>
    if g.admits entry.heading.severity then entry.record? room now state else none
  | .setThreshold _ | .stop => none

/-- How many admitted writes a request comes to. -/
def attempts (g : Gate) : Request → Nat
  | .write state _ entry =>
    if g.admits entry.heading.severity then entry.attempts g.admits state else 0
  | .setThreshold _ | .stop => 0

/-- The records that come of some requests, one after the other. -/
def records (room : Nat) : Gate → List Request → List Record
  | _, [] => []
  | g, request :: rest => (g.record? room request).toList ++ records room (g.after request) rest

/-- How many admitted writes some requests come to. -/
def writes : Gate → List Request → Nat
  | _, [] => 0
  | g, request :: rest => g.attempts request + writes (g.after request) rest

theorem records_append (room : Nat) (requests more : List Request) (g : Gate) :
    g.records room (requests ++ more) =
      g.records room requests ++ (requests.foldl after g).records room more := by
  induction requests generalizing g with
  | nil => rfl
  | cons request rest ih =>
    rw [List.cons_append, records, ih, records, List.append_assoc, List.foldl_cons]

theorem writes_append (requests more : List Request) (g : Gate) :
    g.writes (requests ++ more) = g.writes requests + (requests.foldl after g).writes more := by
  induction requests generalizing g with
  | nil => exact (Nat.zero_add _).symm
  | cons request rest ih =>
    rw [List.cons_append, writes, ih, writes, Nat.add_assoc, List.foldl_cons]

theorem records_of_closed (room : Nat) (requests : List Request) {g : Gate}
    (closed : g.isOpen = false) : g.records room requests = [] := by
  induction requests generalizing g with
  | nil => rfl
  | cons request rest ih =>
    rw [records]
    cases request with
    | write state now entry =>
      rw [record?, admits, closed, Bool.and_false, after, ih closed]
      rfl
    | setThreshold threshold => exact ih closed
    | stop => exact ih rfl

theorem records_singleton (room : Nat) (g : Gate) (request : Request) :
    g.records room [request] = (g.record? room request).toList := by
  rw [records, records, List.append_nil]

end Gate

/-- The gate of a channel. -/
def Channel.gate (c : Channel) : Gate := ⟨c.threshold, c.running⟩

/-- The gate of a relay that is started. -/
def Settings.gate (s : Settings) : Gate := { threshold := s.threshold }

/-- **A log call does what the gate of its channel says**: it publishes the record that comes of the
request, and every admitted write is published or counted as failed. -/
theorem Channel.admits_log (c : Channel) (scratch : Scratch) (now : UInt64) (entry : Entry 1) :
    c.record? scratch.state now entry =
        c.gate.record? (messageRoom c.geometry.slotBytes) (.write scratch.state now entry) ∧
      (c.gate.record? (messageRoom c.geometry.slotBytes)
          (.write scratch.state now entry)).toList.length +
        (c.log scratch now entry).1.writeReports.total =
          c.writeReports.total + c.gate.attempts (.write scratch.state now entry) := by
  obtain ⟨reports, notices, bytes, same, total⟩ := c.exists_log_eq scratch now entry
  rw [same]
  exact ⟨rfl, total⟩

theorem Channel.accepts_of_stopped {c : Channel} (stopped : c.running = false)
    (severity : Severity) : c.accepts severity = false := by
  rw [Channel.accepts, stopped, Bool.and_false]

theorem Channel.WrittenTo.gate {c c' : Channel} (h : c.WrittenTo c') : c'.gate = c.gate := by
  rw [Channel.gate, Channel.gate, h.threshold, h.running]

/-! ### What a sink asks for -/

/-- The request that an act of a sink is. -/
def Act.request? (state : ScratchState) (now : UInt64) : Act → Option Request
  | .log entry => some (.write state now entry)
  | .publish _ | .publishAlone _ | .commit _ => none

namespace Pipeline

variable {σ : Type} {sink : Sink σ} {p : Pipeline σ}

/-- The requests that the sink makes when the consumer makes its next step. -/
def requested (sink : Sink σ) (p : Pipeline σ) (now : UInt64) : List Request :=
  (p.reply? sink).elim [] fun reply => reply.acts.filterMap (Act.request? p.scratch.state now)

/-- How much room for a message the slots have. -/
def room (p : Pipeline σ) : Nat := messageRoom p.channel.geometry.slotBytes

theorem foldl_after_requests (state : ScratchState) (now : UInt64) (g : Gate) (acts : List Act) :
    (acts.filterMap (Act.request? state now)).foldl Gate.after g = g := by
  induction acts with
  | nil => rfl
  | cons a rest ih => cases a <;> exact ih

theorem foldl_after_requested (sink : Sink σ) (p : Pipeline σ) (now : UInt64) (g : Gate) :
    (p.requested sink now).foldl Gate.after g = g := by
  unfold requested
  cases p.reply? sink with
  | none => rfl
  | some reply => exact foldl_after_requests _ now g reply.acts

theorem givenAll_eq_records (now : UInt64) (acts : List Act) (p : Pipeline σ)
    (logs : ∀ a ∈ acts, a.logs = true) :
    p.givenAll now acts = (p.channel.gate.records p.room
        (acts.filterMap (Act.request? p.scratch.state now))).map Record.encode ∧
      (p.channel.gate.records p.room
          (acts.filterMap (Act.request? p.scratch.state now))).length +
        (acts.foldl (fun p a => p.act now a) p).channel.writeReports.total =
          p.channel.writeReports.total +
            p.channel.gate.writes (acts.filterMap (Act.request? p.scratch.state now)) := by
  induction acts generalizing p with
  | nil => exact ⟨rfl, Nat.add_comm _ _⟩
  | cons a rest ih =>
    cases a with
    | publish encoded | publishAlone encoded | commit next => cases logs _ List.mem_cons_self
    | log entry =>
      obtain ⟨written, -, state⟩ := p.act_spares now (.log entry)
      have size : (p.act now (.log entry)).room = p.room := by rw [room, room, written.geometry]
      obtain ⟨given, counted⟩ := ih (p.act now (.log entry))
        fun a member => logs a (List.mem_cons_of_mem _ member)
      obtain ⟨record, counts⟩ := p.channel.admits_log p.scratch now entry
      have total : (p.act now (.log entry)).channel.writeReports.total =
        (p.channel.log p.scratch now entry).1.writeReports.total := rfl
      rw [state, size, written.gate] at given counted
      rw [total] at counted
      have listed : (Act.log entry :: rest).filterMap (Act.request? p.scratch.state now) =
        .write p.scratch.state now entry :: rest.filterMap (Act.request? p.scratch.state now) := rfl
      rw [listed, List.foldl_cons, givenAll, given, Gate.records, Gate.writes, Gate.after,
        List.map_append, List.length_append]
      refine ⟨congrArg (· ++ _) ?_, ?_⟩
      · rw [Pipeline.given, record, Option.toList_map]
        rfl
      · rw [room] at counted ⊢
        omega

/-- **What the sink logs is what the gate lets through**, and the rest is counted as failed. -/
theorem givenNext_eq_records (only : sink.OnlyLogs) (p : Pipeline σ) (now : UInt64) :
    p.givenNext sink now =
        (p.channel.gate.records p.room (p.requested sink now)).map Record.encode ∧
      (p.channel.gate.records p.room (p.requested sink now)).length +
        (p.served sink now).channel.writeReports.total =
          p.channel.writeReports.total + p.channel.gate.writes (p.requested sink now) := by
  unfold givenNext served requested
  cases called : p.reply? sink with
  | none => exact ⟨rfl, Nat.add_comm _ _⟩
  | some reply =>
    exact givenAll_eq_records now reply.acts { p with sink := reply.state }
      (allowed_of_reply only called)

/-- A channel that does not run is given nothing by its sink, and is not touched by it. -/
theorem givenNext_of_stopped (only : sink.OnlyLogs) (stopped : p.channel.running = false)
    (now : UInt64) : p.givenNext sink now = [] := by
  rw [(givenNext_eq_records only p now).1, Gate.records_of_closed _ _ stopped, List.map_nil]

theorem channel_acts_of_stopped (now : UInt64) (acts : List Act) (p : Pipeline σ)
    (logs : ∀ a ∈ acts, a.logs = true) (stopped : p.channel.running = false) :
    (acts.foldl (fun p a => p.act now a) p).channel = p.channel := by
  induction acts generalizing p with
  | nil => rfl
  | cons a rest ih =>
    have same : (p.act now a).channel = p.channel := by
      cases a with
      | publish encoded | publishAlone encoded | commit next => cases logs _ List.mem_cons_self
      | log entry =>
        exact congrArg Prod.fst (Channel.log_of_not_accepts p.scratch now entry
          (Channel.accepts_of_stopped stopped _))
    have later := ih (p.act now a) (fun b member => logs b (List.mem_cons_of_mem _ member))
      (by rw [same, stopped])
    exact later.trans same

theorem channel_served_of_stopped (only : sink.OnlyLogs) (stopped : p.channel.running = false)
    (now : UInt64) : (p.served sink now).channel = p.channel := by
  unfold served
  cases called : p.reply? sink with
  | none => rfl
  | some reply =>
    exact channel_acts_of_stopped now reply.acts { p with sink := reply.state }
      (allowed_of_reply only called) stopped

theorem exists_settleFrom_eq (sink : Sink σ) (now : UInt64) (blocked : Bool) (fuel : Nat)
    (p : Pipeline σ) : ∃ count, settleFrom sink now blocked fuel p =
      (List.replicate count now).foldl (fun p now => p.step sink now) p := by
  induction fuel generalizing p with
  | zero => exact ⟨0, rfl⟩
  | succ fuel ih =>
    rw [settleFrom]
    split
    · exact ⟨0, rfl⟩
    · obtain ⟨count, same⟩ := ih (p.step sink now)
      exact ⟨count + 1, same⟩

theorem exists_settle_eq (sink : Sink σ) (p : Pipeline σ) (now : UInt64) (blocked : Bool) :
    ∃ count, p.settle sink now blocked =
      (List.replicate count now).foldl (fun p now => p.step sink now) p := by
  unfold settle
  split
  · obtain ⟨count, same⟩ := exists_settleFrom_eq sink now blocked patience (p.step sink now)
    exact ⟨count + 1, same⟩
  · exact exists_settleFrom_eq sink now blocked patience p

end Pipeline

/-! ### Relays at work -/

/-- What may happen to a relay. -/
inductive RelayEvent
  /-- A thread logs an entry. -/
  | log (scratch : Scratch) (now : UInt64) (entry : Entry 1)
  /-- A thread logs an entry if its severity is to be written. -/
  | logIfEnabled (scratch : Scratch) (now : UInt64) (entry : Entry 1)
  /-- The least severity that is written is set. -/
  | setThreshold (threshold : Severity)
  /-- The relay is stopped; the consumer works at these clock readings while the caller waits. -/
  | shutdown (times : List UInt64)
  /-- The consumer works. -/
  | consume (now : UInt64)

namespace Relay

variable {σ : Type}

theorem exists_ofGeometry_of_start {settings : Settings} {state : σ} {r : Relay σ}
    (started : start settings state = .ok r) :
    ∃ g : Geometry, g.slotBytes = settings.slotBytes ∧ r = ofGeometry settings g state := by
  unfold start at started
  split at started
  · cases started
  · split at started
    · cases started
    · cases started
    · next g built =>
      cases started
      exact ⟨g, (Geometry.eq_of_check (Geometry.check_of_build built).1).2, rfl⟩

theorem log_fst (r : Relay σ) (scratch : Scratch) (now : UInt64) (entry : Entry 1) :
    (r.log scratch now entry).1 = r.mapChannel fun _ => (r.channel.log scratch now entry).1 := by
  unfold log
  generalize r.channel.log scratch now entry = result
  rfl

theorem log_of_not_accepts {r : Relay σ} (scratch : Scratch) (now : UInt64) (entry : Entry 1)
    (refused : r.channel.accepts entry.heading.severity = false) :
    r.log scratch now entry = (r, scratch) := by
  simp only [log, Channel.log_of_not_accepts scratch now entry refused]
  rfl

theorem logIfEnabled_eq_log (r : Relay σ) (scratch : Scratch) (now : UInt64) (entry : Entry 1) :
    r.logIfEnabled scratch now entry = r.log scratch now entry := by
  rw [logIfEnabled, Channel.logIfEnabled_eq_log, log]

theorem exists_endShutdown_eq (r : Relay σ) : ∃ notices, r.endShutdown.2 =
    r.mapChannel fun c => { c with threshold := c.threshold, running := c.running, notices } := by
  unfold endShutdown
  split
  · split
    · exact ⟨_, rfl⟩
    · exact ⟨_, rfl⟩
  · exact ⟨_, rfl⟩

/-- A caller that waited is told whether the consumer is done, and if not, how much waits. -/
theorem endShutdown_fst (r : Relay σ) : r.endShutdown.1 =
    if r.channel.finished then .ok () else .error (.shutdownTimeout r.channel.ring.length) := by
  unfold endShutdown
  cases r.channel.finished with
  | false => rfl
  | true => rfl

end Relay

/-- A relay at work, with all that was asked of it. -/
structure Admission (σ : Type) where
  relay : Relay σ
  requests : List Request := []

namespace Admission

variable {σ : Type} {sink : Sink σ} {settings : Settings} {a : Admission σ}

/-- The consumer makes a step, in which the sink may make requests. -/
def consume (sink : Sink σ) (a : Admission σ) (now : UInt64) : Admission σ where
  relay := { a.relay with pipeline := a.relay.pipeline.step sink now }
  requests := a.requests ++ a.relay.pipeline.requested sink now

/-- The relay after one more event. -/
def next (sink : Sink σ) (a : Admission σ) : RelayEvent → Admission σ
  | .log scratch now entry =>
    { relay := (a.relay.log scratch now entry).1
      requests := a.requests ++ [.write scratch.state now entry] }
  | .logIfEnabled scratch now entry =>
    { relay := (a.relay.logIfEnabled scratch now entry).1
      requests := a.requests ++ [.write scratch.state now entry] }
  | .setThreshold threshold =>
    { relay := a.relay.setThreshold threshold
      requests := a.requests ++ [.setThreshold threshold] }
  | .shutdown times =>
    match a.relay.beginShutdown with
    | .error _ => { a with requests := a.requests ++ [.stop] }
    | .ok relay =>
      let stopped := times.foldl (consume sink) { relay, requests := a.requests ++ [.stop] }
      { stopped with relay := stopped.relay.endShutdown.2 }
  | .consume now => a.consume sink now

/-- The relay after some more events. -/
def run (sink : Sink σ) (a : Admission σ) (events : List RelayEvent) : Admission σ :=
  events.foldl (next sink) a

/-- The records that come of all requests. -/
def records (settings : Settings) (a : Admission σ) : List Record :=
  settings.gate.records (messageRoom settings.slotBytes) a.requests

/-- The gate as all requests leave it. -/
def gate (settings : Settings) (a : Admission σ) : Gate :=
  a.requests.foldl Gate.after settings.gate

/-- **The law of admission.** -/
structure Lawful (settings : Settings) (a : Admission σ) : Prop where
  /-- The records that come of the requests are published, in order and under the sequences from
  zero on. -/
  keeps : a.relay.channel.ring.Keeps ((a.records settings).map Record.encode)
  published : a.relay.stats.published = (a.records settings).length
  /-- Every admitted write is published or counted as failed. -/
  counted : a.relay.stats.published + a.relay.stats.writeFailures =
    settings.gate.writes a.requests
  /-- An entry that is not admitted changes nothing of the relay. -/
  refused : ∀ (scratch : Scratch) (now : UInt64) (entry : Entry 1),
    (a.gate settings).admits entry.heading.severity = false →
      a.relay.log scratch now entry = (a.relay, scratch) ∧
        a.relay.logIfEnabled scratch now entry = (a.relay, scratch)
  /-- Nor of anything else that the thread writes to. -/
  ignored : ∀ {n : Nat} (t : Thread n) (now : UInt64) (entry : Entry n),
    t.channels[entry.heading.channel] = a.relay.channel →
      (a.gate settings).admits entry.heading.severity = false →
        t.log now entry = t ∧ t.logIfEnabled now entry = t
  /-- Its message is not even looked at: the same holds for whatever formats one. -/
  unread : ∀ {n : Nat} (t : Thread n) (now : UInt64) (h : Heading n)
    (fill : Thread n → Draft → Thread n × Draft × Except WriteFault Unit),
      t.channels[h.channel] = a.relay.channel →
        (a.gate settings).admits h.severity = false → t.compose now h fill = t

/-- **The invariant.** -/
structure Inv (settings : Settings) (a : Admission σ) : Prop where
  slotBytes : a.relay.channel.geometry.slotBytes = settings.slotBytes
  stoppable : a.relay.stoppable = a.relay.channel.running
  gate : a.relay.channel.gate = a.gate settings
  accounts : ∃ overlap, a.relay.pipeline.Accounts ((a.records settings).map Record.encode) overlap
  counted : (a.records settings).length + a.relay.channel.writeReports.total =
    settings.gate.writes a.requests

/-- Requests of which just what the gate says was published and counted. -/
theorem Inv.extend (inv : a.Inv settings) {relay : Relay σ} {requests : List Request}
    (overlap : Nat)
    (slotBytes : relay.channel.geometry.slotBytes = a.relay.channel.geometry.slotBytes)
    (stoppable : relay.stoppable = relay.channel.running)
    (gate : relay.channel.gate = requests.foldl Gate.after a.relay.channel.gate)
    (accounts : relay.pipeline.Accounts ((a.records settings).map Record.encode ++
      (a.relay.channel.gate.records a.relay.pipeline.room requests).map Record.encode) overlap)
    (counted : (a.relay.channel.gate.records a.relay.pipeline.room requests).length +
      relay.channel.writeReports.total =
        a.relay.channel.writeReports.total + a.relay.channel.gate.writes requests) :
    (⟨relay, a.requests ++ requests⟩ : Admission σ).Inv settings := by
  have room : a.relay.pipeline.room = messageRoom settings.slotBytes :=
    congrArg messageRoom inv.slotBytes
  have current : a.requests.foldl Gate.after settings.gate = a.relay.channel.gate := inv.gate.symm
  have listed : (⟨relay, a.requests ++ requests⟩ : Admission σ).records settings =
      a.records settings ++ a.relay.channel.gate.records a.relay.pipeline.room requests := by
    rw [room, ← current]
    exact Gate.records_append _ _ _ _
  refine ⟨slotBytes.trans inv.slotBytes, stoppable, ?_, ⟨overlap, ?_⟩, ?_⟩
  · show relay.channel.gate = (a.requests ++ requests).foldl Gate.after settings.gate
    rw [List.foldl_append, current]
    exact gate
  · rw [listed, List.map_append]
    exact accounts
  · have before := inv.counted
    have writes := Gate.writes_append a.requests requests settings.gate
    rw [current] at writes
    rw [listed, List.length_append]
    show _ + relay.channel.writeReports.total = settings.gate.writes (a.requests ++ requests)
    omega

theorem Inv.log (inv : a.Inv settings) (scratch : Scratch) (now : UInt64) (entry : Entry 1) :
    (a.next sink (.log scratch now entry)).Inv settings := by
  obtain ⟨overlap, accounts⟩ := inv.accounts
  have written := a.relay.channel.writtenTo_log scratch now entry
  obtain ⟨record, counts⟩ := a.relay.channel.admits_log scratch now entry
  have listed : ((a.relay.channel.record? scratch.state now entry).map Record.encode).toList =
      (a.relay.channel.gate.records a.relay.pipeline.room
        [.write scratch.state now entry]).map Record.encode := by
    rw [Gate.records_singleton, Option.toList_map]
    exact congrArg (fun r => (Option.toList r).map Record.encode) record
  have fed := Channel.fed_log (c := a.relay.channel) accounts.keeps accounts.within scratch now
    entry
  rw [listed] at fed
  refine inv.extend _ (congrArg Geometry.slotBytes written.geometry) ?_ written.gate
    (@Pipeline.Accounts.fed σ a.relay.pipeline (a.next sink (.log scratch now entry)).relay.pipeline
      _ _ _ accounts fed rfl written.tally) ?_
  · exact inv.stoppable.trans written.running.symm
  · rw [Gate.records_singleton]
    exact counts

theorem Inv.consume (only : sink.OnlyLogs) (inv : a.Inv settings) (now : UInt64) :
    (a.consume sink now).Inv settings := by
  obtain ⟨overlap, accounts⟩ := inv.accounts
  obtain ⟨geometry, threshold, running, reports⟩ := a.relay.pipeline.step_spares sink now
  obtain ⟨given, counts⟩ := Pipeline.givenNext_eq_records only a.relay.pipeline now
  have stepped := accounts.step only.neverCommits now
  rw [given] at stepped
  refine inv.extend overlap (congrArg Geometry.slotBytes geometry)
    (inv.stoppable.trans running.symm) ?_ stepped ?_
  · rw [Pipeline.foldl_after_requested]
    rw [Channel.gate, Channel.gate]
    exact congr (congrArg Gate.mk threshold) running
  · rw [← reports] at counts
    exact counts

theorem Inv.foldl_consume (only : sink.OnlyLogs) (times : List UInt64) (inv : a.Inv settings) :
    (times.foldl (Admission.consume sink) a).Inv settings := by
  induction times generalizing a with
  | nil => exact inv
  | cons now rest ih => exact ih (inv.consume only now)

theorem Inv.endShutdown (inv : a.Inv settings) :
    ({ a with relay := a.relay.endShutdown.2 } : Admission σ).Inv settings := by
  obtain ⟨overlap, accounts⟩ := inv.accounts
  obtain ⟨notices, same⟩ := a.relay.exists_endShutdown_eq
  rw [same]
  exact ⟨inv.slotBytes, inv.stoppable, inv.gate, ⟨overlap, accounts.retuned _ _ notices⟩,
    inv.counted⟩

theorem Inv.next (only : sink.OnlyLogs) (inv : a.Inv settings) (event : RelayEvent) :
    (a.next sink event).Inv settings := by
  obtain ⟨overlap, accounts⟩ := inv.accounts
  cases event with
  | log scratch now entry => exact inv.log scratch now entry
  | logIfEnabled scratch now entry =>
    rw [Admission.next, Relay.logIfEnabled_eq_log]
    show (a.next sink (.log scratch now entry)).Inv settings
    exact inv.log scratch now entry
  | setThreshold threshold =>
    refine inv.extend overlap rfl inv.stoppable rfl ?_ (Nat.zero_add _)
    rw [Gate.records_singleton]
    exact (List.append_nil _).symm ▸ accounts.retuned threshold _ _
  | consume now => exact inv.consume only now
  | shutdown times =>
    cases stoppable : a.relay.stoppable with
    | false =>
      have closed : a.relay.channel.gate.after .stop = a.relay.channel.gate :=
        congrArg (Gate.mk _) (stoppable.symm.trans inv.stoppable)
      have refused : a.next sink (.shutdown times) = ⟨a.relay, a.requests ++ [.stop]⟩ := by
        simp only [Admission.next, Relay.beginShutdown, stoppable, Bool.false_eq_true, if_false]
      rw [refused]
      refine inv.extend overlap rfl inv.stoppable closed.symm ?_ (Nat.zero_add _)
      exact (List.append_nil _).symm ▸ accounts
    | true =>
      have accepted : a.next sink (.shutdown times) =
          let stopped := times.foldl (Admission.consume sink)
            ⟨{ a.relay with stoppable := false, pipeline := a.relay.pipeline.stop },
              a.requests ++ [.stop]⟩
          { stopped with relay := stopped.relay.endShutdown.2 } := by
        simp only [Admission.next, Relay.beginShutdown, stoppable, if_true]
      rw [accepted]
      refine (Inv.foldl_consume only times ?_).endShutdown
      refine inv.extend overlap rfl rfl rfl ?_ (Nat.zero_add _)
      exact (List.append_nil _).symm ▸ accounts.retuned _ false _

theorem Inv.run (only : sink.OnlyLogs) (inv : a.Inv settings) (events : List RelayEvent) :
    (a.run sink events).Inv settings := by
  induction events generalizing a with
  | nil => exact inv
  | cons event rest ih => exact ih (inv.next only event)

theorem inv_start {state : σ} {r : Relay σ} (started : Relay.start settings state = .ok r) :
    (⟨r, []⟩ : Admission σ).Inv settings := by
  obtain ⟨g, size, rfl⟩ := Relay.exists_ofGeometry_of_start started
  refine ⟨size, rfl, rfl, ⟨0, ?_⟩, rfl⟩
  exact Pipeline.accounts_start (Ring.keeps_empty g) (Ring.within_empty g) rfl rfl state

theorem Inv.lawful (inv : a.Inv settings) : a.Lawful settings := by
  obtain ⟨overlap, accounts⟩ := inv.accounts
  have published : a.relay.channel.ring.published = (a.records settings).length :=
    accounts.keeps.published.trans (List.length_map _)
  have refused : ∀ {severity}, (a.gate settings).admits severity = false →
      a.relay.channel.accepts severity = false := by
    intro severity closed
    rw [← inv.gate] at closed
    exact closed
  refine ⟨accounts.keeps, published, ?_, ?_, ?_, ?_⟩
  · have counted := inv.counted
    rw [← published] at counted
    exact counted
  · intro scratch now entry closed
    have still := Relay.log_of_not_accepts scratch now entry (refused closed)
    rw [Relay.logIfEnabled_eq_log]
    exact ⟨still, still⟩
  · intro n t now entry here closed
    have still : t.log now entry = t := Thread.log_of_not_accepts entry (here ▸ refused closed)
    rw [Thread.logIfEnabled_eq_log]
    exact ⟨still, still⟩
  · intro n t now h fill here closed
    exact Thread.compose_of_not_accepts (here ▸ refused closed)

/-- Stopping a relay with a consumer that works until it rests is one of these events. -/
theorem exists_shutdown_eq (sink : Sink σ) (a : Admission σ) (now : UInt64) (blocked : Bool) :
    ∃ times, (a.next sink (.shutdown times)).relay = (a.relay.shutdown sink now blocked).2 := by
  have worked : ∀ (times : List UInt64) (b : Admission σ), (times.foldl (consume sink) b).relay =
      { b.relay with pipeline := times.foldl (fun p now => p.step sink now) b.relay.pipeline } := by
    intro times
    induction times with
    | nil => exact fun b => rfl
    | cons now rest ih => exact fun b => ih (b.consume sink now)
  cases stoppable : a.relay.stoppable with
  | false =>
    refine ⟨[], ?_⟩
    simp only [Admission.next, Relay.shutdown, Relay.beginShutdown, stoppable, Bool.false_eq_true,
      if_false]
  | true =>
    obtain ⟨count, settled⟩ := a.relay.pipeline.stop.exists_settle_eq sink now blocked
    refine ⟨List.replicate count now, ?_⟩
    simp only [Admission.next, Relay.shutdown, Relay.beginShutdown, stoppable, if_true, worked,
      Relay.settle, settled]

/-- **A relay takes exactly what its gate admits**, in whatever order entries are logged, thresholds
are set and the relay is stopped, however far the consumer is and whatever its sink logs. -/
theorem lawful_run (sink : Sink σ) (only : sink.OnlyLogs) (settings : Settings) (state : σ)
    {r : Relay σ} (started : Relay.start settings state = .ok r) (events : List RelayEvent) :
    ((⟨r, []⟩ : Admission σ).run sink events).Lawful settings :=
  ((inv_start started).run only events).lawful

/-- Two slots with room for four bytes of message. -/
def pocket : Settings := { slotCount := 2, slotBytes := 18 }

/-- A sink that logs a record when it is handed the first one, and fails. -/
def grumbling : Sink Bool where
  write
    | false, _ => ⟨true, [.log (.bytes (.solo .warn 9) [33])], .failed .writeZero⟩
    | true, _ => { state := true }

/-- Entries above and below the threshold, with values that log, refuse and panic, from free and
busy buffers, before and after the relay is stopped. -/
def busyDay : List RelayEvent :=
  [.log {} 1 (.formatted (.solo .debug 1) .panics),
    .logIfEnabled {} 2 (.formatted (.solo .warn 2)
      (.logs (.solo .error 3) [1] (.formats (.solo .trace 4) .panics .done))),
    .setThreshold .trace, .log {} 3 (.formatted (.solo .trace 5) .refuses),
    .log ⟨[], .busy⟩ 4 (.bytes (.solo .trace 6) []), .consume 5, .consume 5, .consume 5, .consume 5,
    .consume 5, .log {} 6 (.bytes (.solo .trace 7) [1, 2, 3, 4, 5]),
    .shutdown (List.replicate 20 7), .log {} 8 (.bytes (.solo .error 8) [1]), .shutdown []]

theorem lawful_run_busyDay : ∃ r, Relay.start pocket false = .ok r ∧ grumbling.OnlyLogs ∧
    ((⟨r, []⟩ : Admission Bool).run grumbling busyDay).Lawful pocket ∧
    ((⟨r, []⟩ : Admission Bool).run grumbling busyDay).records pocket =
      [⟨2, .warn, 2, []⟩, ⟨5, .warn, 9, [33]⟩, ⟨6, .trace, 7, [1, 2, 3, 4]⟩] ∧
    ((⟨r, []⟩ : Admission Bool).run grumbling busyDay).relay.stats = ⟨3, 2, 0, 3, 1, 0, 0⟩ := by
  have only : grumbling.OnlyLogs := by
    refine ⟨?_, ?_⟩
    · intro before f a member
      cases before with
      | true => cases member
      | false =>
        rw [List.mem_singleton.1 member]
        rfl
    · intro before a member
      cases member
  exact ⟨_, rfl, only, lawful_run grumbling only pocket false rfl busyDay, by decide, by decide⟩

/-- A thread that is ending and has given its buffer back is not admitted under the same law: its
entry is above the threshold and could be formatted, and yet it comes to a failed write. -/
theorem unpublished_of_tornDown : ∃ r, Relay.start pocket () = .ok r ∧
    r.channel.accepts .error = true ∧ (Entry.bytes (n := 1) ⟨0, .error, 0⟩ [7]).ending = .ok () ∧
    (r.log ⟨[], .tornDown⟩ 1 (.bytes ⟨0, .error, 0⟩ [7])).1.stats = ⟨0, 0, 0, 1, 0, 0, 0⟩ :=
  ⟨_, rfl, by decide, rfl, by decide⟩

end Admission

end LogRelay
