/-
# Writes and calls under way

A relay may be stopped at any moment: while writers are between the check that lets them through and
the publication of their records, and while the sink is in the middle of a call in which it logs.
So calls of the sink are taken apart here: one access of the consumer begins a call and another one
ends it, and in between the sink acts, one thing at a time, while others do as they please. With
nothing in between the two accesses are one step of the consumer (`Draining.consume_consume`).
Writes are taken apart in the same way (`Draining.run_write`).

Key definitions: `Draining`, `Draining.next`, `Draining.run`, `Draining.Inv`.
Key theorems: `Draining.run_write`, `Draining.consume_consume`, `Draining.Inv.next`,
`Draining.inv_start`.
-/
import LogRelay.Proofs.Tracing

namespace LogRelay

/-- A write of a thread whose buffer is in some state. -/
structure PendingWrite where
  now : UInt64
  entry : Entry 1
  state : ScratchState

/-- A relay with all that is under way in it, and what its loop has done so far. -/
structure Draining (σ : Type) where
  relay : Relay σ
  /-- What is left of the call that the sink is in. -/
  call : Option (Sink.Reply σ) := none
  /-- Writes that have not looked yet whether the relay is running. -/
  arriving : List PendingWrite := []
  /-- Writes that have found it running, and have not come to anything yet. -/
  admitted : List PendingWrite := []
  /-- The sequences that were read. -/
  reads : List Nat := []
  /-- The calls of the sink that were begun. -/
  calls : List SinkCall := []

/-- What may happen to a relay. -/
inductive DrainingEvent
  /-- A thread begins to log an entry, if its severity is to be written. -/
  | arrive (state : ScratchState) (now : UInt64) (entry : Entry 1)
  /-- A write looks whether the relay is running, and is given up if it is not. -/
  | letIn (i : Nat)
  /-- A write that was admitted comes to its end: it publishes a record or is counted as failed. -/
  | conclude (i : Nat)
  /-- The least severity that is written is set. -/
  | setThreshold (threshold : Severity)
  /-- The relay is stopped, if it was not stopped before. -/
  | stop
  /-- Whoever has stopped the relay looks whether the consumer is done. -/
  | await
  /-- The sink does the next thing in the call that it is in. -/
  | act (now : UInt64)
  /-- The consumer makes its next access. For a call of the sink it makes two: it begins the call,
  and with what is left of it and the sink's answer it ends the call. -/
  | consume (now : UInt64)

/-- The event is an access of the consumer. -/
def DrainingEvent.consumes : DrainingEvent → Bool
  | .consume _ => true
  | _ => false

/-- The event is one that only sets flags and emits notices. -/
def DrainingEvent.tunes : DrainingEvent → Bool
  | .setThreshold _ | .stop | .await => true
  | _ => false

namespace Draining

variable {σ : Type} {sink : Sink σ} {d d' d'' : Draining σ}

/-- The relay's channel with its consumer. -/
abbrev pipeline (d : Draining σ) : Pipeline σ := d.relay.pipeline

/-- The relay's ring. -/
abbrev ring (d : Draining σ) : Ring d.relay.pipeline.channel.geometry :=
  d.relay.pipeline.channel.ring

/-- How many records its ring holds. -/
def slotCount (d : Draining σ) : Nat := d.pipeline.channel.geometry.slotCount

/-- How far the loop is behind. -/
def lag (d : Draining σ) : Nat := d.ring.published - d.pipeline.drain.cursor

/-- The same relay with another pipeline. -/
def withPipeline (d : Draining σ) (pipeline : Pipeline σ) : Draining σ :=
  { d with relay := { d.relay with pipeline } }

/-- What is left of a call, and what the consumer makes of the answer. -/
def ending (sink : Sink σ) (p : Pipeline σ) (now : UInt64) (reply : Sink.Reply σ) : Pipeline σ :=
  (reply.acts.foldl (fun p a => p.act now a) p).step (sink.answering reply.outcome) now

/-- The consumer makes its next access. -/
def consume (sink : Sink σ) (d : Draining σ) (now : UInt64) : Draining σ :=
  match d.call, d.pipeline.calls? with
  | some reply, _ => { d.withPipeline (ending sink d.pipeline now reply) with call := none }
  | none, some call =>
    let reply := sink.reply d.pipeline.sink call
    { d.withPipeline { d.pipeline with sink := reply.state } with
      call := some reply
      calls := d.calls ++ [call] }
  | none, none =>
    { d.withPipeline (d.pipeline.step sink now) with
      reads := d.reads ++ d.pipeline.reads?.toList }

/-- The relay after one more event. -/
def next (sink : Sink σ) (d : Draining σ) : DrainingEvent → Draining σ
  | .arrive state now entry =>
    if d.pipeline.channel.isEnabled entry.heading.severity then
      { d with arriving := d.arriving ++ [⟨now, entry, state⟩] }
    else d
  | .letIn i =>
    match d.arriving[i]? with
    | none => d
    | some w =>
      { d with
        arriving := d.arriving.eraseIdx i
        admitted := if d.pipeline.channel.running then d.admitted ++ [w] else d.admitted }
  | .conclude i =>
    match d.admitted[i]? with
    | none => d
    | some w =>
      { d with
        relay := d.relay.mapChannel (·.write w.now w.entry w.state)
        admitted := d.admitted.eraseIdx i }
  | .setThreshold threshold => { d with relay := d.relay.setThreshold threshold }
  | .stop =>
    match d.relay.beginShutdown with
    | .error _ => d
    | .ok relay => { d with relay }
  | .await => { d with relay := d.relay.endShutdown.2 }
  | .act now =>
    match d.call with
    | some ⟨state, a :: rest, outcome⟩ =>
      { d.withPipeline (d.pipeline.act now a) with call := some ⟨state, rest, outcome⟩ }
    | _ => d
  | .consume now => d.consume sink now

/-- The relay after some more events. -/
def run (sink : Sink σ) (d : Draining σ) (events : List DrainingEvent) : Draining σ :=
  events.foldl (next sink) d

/-- A write that nobody disturbs is a log call. -/
theorem run_write (sink : Sink σ) (r : Relay σ) (scratch : Scratch) (now : UInt64)
    (entry : Entry 1) :
    (({ relay := r } : Draining σ).run sink
      [.arrive scratch.state now entry, .letIn 0, .conclude 0]).relay =
        (r.log scratch now entry).1 := by
  obtain ⟨bytes, logged⟩ := r.channel.log_eq scratch now entry
  rw [Relay.log_fst, logged, Channel.accepts, Relay.channel]
  cases enabled : r.pipeline.channel.isEnabled entry.heading.severity with
  | false =>
    simp only [run, List.foldl_cons, List.foldl_nil, next, pipeline, enabled]
    rfl
  | true =>
    cases running : r.pipeline.channel.running with
    | false | true =>
      simp only [run, List.foldl_cons, List.foldl_nil, next, pipeline, enabled, if_true,
        List.nil_append, List.getElem?_cons_zero, running]
      rfl

/-- A call that nobody disturbs is one step of the consumer. -/
theorem consume_consume {call : SinkCall} (idle : d.call = none)
    (calls : d.pipeline.calls? = some call) (now : UInt64) :
    (d.consume sink now).consume sink now =
      { d.withPipeline (d.pipeline.step sink now) with calls := d.calls ++ [call] } := by
  obtain ⟨relay, _, arriving, admitted, reads, earlier⟩ := d
  cases idle
  have begun : (⟨relay, none, arriving, admitted, reads, earlier⟩ : Draining σ).consume sink now =
      ⟨{ relay with
          pipeline := { relay.pipeline with sink := (sink.reply relay.pipeline.sink call).state } },
        some (sink.reply relay.pipeline.sink call), arriving, admitted, reads,
        earlier ++ [call]⟩ := by
    simp only [consume, calls]
    rfl
  rw [begun, Pipeline.step_eq_answering calls]
  rfl

/-! ### The invariant -/

/-- **The invariant** of a relay that is used, stopped and drained. -/
structure Inv (d : Draining σ) : Prop where
  traced : d.pipeline.Traced d.reads
  /-- While the sink is in a call the loop stands where it made the call, and the sink logs. -/
  calling : ∀ reply, d.call = some reply →
    (∃ call, d.pipeline.calls? = some call) ∧ ∀ a ∈ reply.acts, a.logs = true

theorem traced_acts {p : Pipeline σ} {reads : List Nat} (traced : p.Traced reads) (now : UInt64)
    (acts : List Act) (logs : ∀ a ∈ acts, a.logs = true) :
    (acts.foldl (fun p a => p.act now a) p).Traced reads := by
  obtain ⟨written, drain, -⟩ := Pipeline.acts_spare now acts p
  have never : ∀ a ∈ acts, a.commits = false := fun a member =>
    Act.commits_of_logs (logs a member)
  refine traced.fed (fun log keeps within => Pipeline.fed_acts now acts keeps within never) ?_ drain
    written.tally
  intro encoded member
  rw [(Pipeline.givenAll_eq_records now acts p logs).1] at member
  obtain ⟨r, -, rfl⟩ := List.mem_map.1 member
  exact ⟨r, rfl⟩

/-- Setting flags and emitting notices changes nothing else, and a stopped relay stays stopped. -/
theorem exists_next_eq_of_tunes (sink : Sink σ) (d : Draining σ) {event : DrainingEvent}
    (tunes : event.tunes = true) :
    ∃ (relay : Relay σ) (threshold : Severity) (running : Bool) (notices : List Notice),
      d.next sink event = { d with relay } ∧
      relay.pipeline = d.pipeline.mapChannel (fun c => { c with threshold, running, notices }) ∧
      (d.pipeline.channel.running = false → running = false) := by
  cases event with
  | setThreshold threshold => exact ⟨_, threshold, _, _, rfl, rfl, id⟩
  | stop =>
    cases stoppable : d.relay.stoppable with
    | true =>
      refine ⟨{ d.relay with stoppable := false, pipeline := d.relay.pipeline.stop }, _, false, _,
        ?_, rfl, fun _ => rfl⟩
      simp only [next, Relay.beginShutdown, stoppable, if_true]
    | false =>
      refine ⟨d.relay, _, _, _, ?_, rfl, id⟩
      simp only [next, Relay.beginShutdown, stoppable, Bool.false_eq_true, if_false]
  | await =>
    obtain ⟨notices, same⟩ := d.relay.exists_endShutdown_eq
    refine ⟨_, d.pipeline.channel.threshold, d.pipeline.channel.running, notices, rfl, ?_, id⟩
    rw [same]
    rfl
  | _ => cases tunes

theorem consume_of_call {reply : Sink.Reply σ} (under : d.call = some reply) (now : UInt64) :
    d.consume sink now =
      { d.withPipeline (ending sink d.pipeline now reply) with call := none } := by
  simp only [consume, under]

theorem consume_of_calls? {call : SinkCall} (idle : d.call = none)
    (calls : d.pipeline.calls? = some call) (now : UInt64) : d.consume sink now =
      { d.withPipeline { d.pipeline with sink := (sink.reply d.pipeline.sink call).state } with
        call := some (sink.reply d.pipeline.sink call)
        calls := d.calls ++ [call] } := by
  simp only [consume, idle, calls]

theorem consume_of_silent (idle : d.call = none) (silent : d.pipeline.calls? = none)
    (now : UInt64) : d.consume sink now =
      { d.withPipeline (d.pipeline.step sink now) with
        reads := d.reads ++ d.pipeline.reads?.toList } := by
  simp only [consume, idle, silent]

theorem Inv.consume (only : sink.OnlyLogs) (inv : d.Inv) (now : UInt64) :
    (d.consume sink now).Inv := by
  cases under : d.call with
  | some reply =>
    obtain ⟨⟨call, calls⟩, logs⟩ := inv.calling reply under
    have drain := (Pipeline.acts_spare now reply.acts d.pipeline).2.1
    have ended := (traced_acts inv.traced now reply.acts logs).step
      (sink.onlyLogs_answering reply.outcome) now
    rw [Pipeline.reads?_of_calls? ((Pipeline.calls?_congr drain).trans calls), Option.toList_none,
      List.append_nil] at ended
    rw [consume_of_call under]
    refine ⟨ended, ?_⟩
    intro _ none
    cases none
  | none =>
    cases calls : d.pipeline.calls? with
    | some call =>
      rw [consume_of_calls? under calls]
      refine ⟨inv.traced.fed (fun log keeps within => Channel.fed_nil keeps within) ?_ rfl rfl, ?_⟩
      · intro encoded none
        cases none
      · intro reply begun
        cases begun
        exact ⟨⟨call, calls⟩, only.reply _ call⟩
    | none =>
      rw [consume_of_silent under calls]
      refine ⟨inv.traced.step only now, ?_⟩
      intro reply some
      cases under.symm.trans some

theorem Inv.tune (inv : d.Inv) (sink : Sink σ) {event : DrainingEvent}
    (tunes : event.tunes = true) : (d.next sink event).Inv := by
  obtain ⟨relay, threshold, running, notices, stepped, same, -⟩ :=
    exists_next_eq_of_tunes sink d tunes
  rw [stepped]
  refine ⟨?_, ?_⟩
  · show relay.pipeline.Traced d.reads
    rw [same]
    exact inv.traced.retuned threshold running notices
  · show ∀ reply, d.call = some reply → (∃ call, relay.pipeline.calls? = some call) ∧ _
    rw [same]
    exact inv.calling

/-- **Every event keeps the invariant.** -/
theorem Inv.next (only : sink.OnlyLogs) (inv : d.Inv) (event : DrainingEvent) :
    (d.next sink event).Inv := by
  cases event with
  | setThreshold threshold | stop | await => exact inv.tune sink rfl
  | consume now => exact inv.consume only now
  | arrive state now entry =>
    rw [Draining.next]
    split
    · exact ⟨inv.traced, inv.calling⟩
    · exact inv
  | letIn i =>
    rw [Draining.next]
    split
    · exact inv
    · exact ⟨inv.traced, inv.calling⟩
  | conclude i =>
    rw [Draining.next]
    split
    · exact inv
    · next w _ =>
      have written := d.pipeline.channel.writtenTo_write w.now w.entry w.state
      refine ⟨inv.traced.fed (fun log keeps within =>
        Channel.fed_write keeps within w.now w.entry w.state) ?_ rfl written.tally, inv.calling⟩
      intro encoded member
      obtain ⟨r, -, rfl⟩ := Option.map_eq_some_iff.1 (Option.mem_toList.1 member)
      exact ⟨r, rfl⟩
  | act now =>
    rw [Draining.next]
    split
    · next state a rest outcome under =>
      obtain ⟨⟨call, calls⟩, logs⟩ := inv.calling _ under
      have drain := (d.pipeline.act_spares now a).2.1
      refine ⟨?_, ?_⟩
      · refine traced_acts inv.traced now [a] fun b member => ?_
        rw [List.mem_singleton.1 member]
        exact logs a List.mem_cons_self
      · intro reply left
        cases left
        exact ⟨⟨call, (Pipeline.calls?_congr drain).trans calls⟩,
          fun b member => logs b (List.mem_cons_of_mem a member)⟩
    · exact inv

theorem Inv.run (only : sink.OnlyLogs) (events : List DrainingEvent) (inv : d.Inv) :
    (d.run sink events).Inv := by
  induction events generalizing d with
  | nil => exact inv
  | cons event rest ih => exact ih (inv.next only event)

theorem inv_start {settings : Settings} {state : σ} {r : Relay σ}
    (started : Relay.start settings state = .ok r) : ({ relay := r } : Draining σ).Inv := by
  obtain ⟨g, -, rfl⟩ := Relay.exists_ofGeometry_of_start started
  have accounts := Pipeline.accounts_start (c := (Relay.ofGeometry settings g state).channel)
    (Ring.keeps_empty g) (Ring.within_empty g) rfl rfl state
  refine ⟨⟨⟨[], 0, accounts, ?_, ?_⟩, .nil, ?_, ?_⟩, ?_⟩
  · intro encoded member
    cases member
  · intro found r at_
    cases at_
  · intro s member
    cases member
  · intro s below
    cases below
  · intro reply under
    cases under

end Draining

end LogRelay
