/-
# Draining a stopped relay

What was let through before a relay is stopped is still published. From then on nothing is, whatever
writers and sink try, so the ring holds what it holds, and the loop has no more to read than lies
between its cursor and the published one. It hands every record that waits to the sink, flushes
once, and is done; neither of its two ways back to the top without a record can be taken for ever.
The loop is never left while there is a record to read, stopped or not.

Key definitions: `Draining.Quiet`, `Draining.due`, `Draining.Onward`, `Draining.Drains`.
Key theorems: `Draining.Inv.onward_next`, `Draining.Inv.onward_run`, `Draining.Inv.exits`,
`Draining.drains_run`.
-/
import LogRelay.Proofs.Underway

namespace LogRelay

namespace Draining

variable {σ : Type} {sink : Sink σ} {d d' d'' : Draining σ}

/-! ### The drain -/

/-- The relay was stopped, and no write is past the check that lets it through. -/
structure Quiet (d : Draining σ) : Prop where
  stopped : d.pipeline.channel.running = false
  noneAdmitted : d.admitted = []

/-- The calls of the sink that are still to be begun as long as nothing more is published. -/
def due (d : Draining σ) : List SinkCall :=
  match d.call with
  | none => d.pipeline.due
  | some _ => d.pipeline.awaited

theorem due_of_call {reply : Sink.Reply σ} (under : d.call = some reply) :
    d.due = d.pipeline.awaited := by
  rw [due, under]

theorem due_of_idle (idle : d.call = none) : d.due = d.pipeline.due := by
  rw [due, idle]

/-- At most so many sequences are still to be read. -/
def readsLeft (d : Draining σ) : Nat := d.ring.published - d.pipeline.readTo

/-- At most so many accesses are left to the consumer: two for every move, of which a call under way
has had one. -/
def accessesLeft (d : Draining σ) : Nat :=
  2 * d.pipeline.movesLeft - if d.call.isSome then 1 else 0

theorem accessesLeft_le (d : Draining σ) : d.accessesLeft ≤ 10 * d.lag + 12 := by
  have most : d.pipeline.movesLeft ≤ 5 * d.lag + 6 := d.pipeline.movesLeft_le
  rw [accessesLeft]
  omega

theorem accessesLeft_of_call {reply : Sink.Reply σ} (under : d.call = some reply) :
    d.accessesLeft = 2 * d.pipeline.movesLeft - 1 := by
  rw [accessesLeft, under]
  rfl

theorem accessesLeft_of_idle (idle : d.call = none) :
    d.accessesLeft = 2 * d.pipeline.movesLeft := by
  rw [accessesLeft, idle]
  rfl

/-- What happens to a relay whose drain goes on, with so many accesses of the consumer. -/
structure Onward (d : Draining σ) (accesses : Nat) (d' : Draining σ) : Prop where
  quiet : d'.Quiet
  published : d'.ring.published = d.ring.published
  reads : ∃ more, d'.reads = d.reads ++ more ∧ more.length + d'.readsLeft ≤ d.readsLeft
  calls : d'.calls ++ d'.due = d.calls ++ d.due
  accesses : d'.accessesLeft ≤ d.accessesLeft - accesses

theorem Quiet.onward_self (quiet : d.Quiet) : d.Onward 0 d :=
  ⟨quiet, rfl, ⟨[], (List.append_nil _).symm, Nat.le_of_eq (Nat.zero_add _)⟩, rfl, Nat.le_refl _⟩

theorem Onward.trans {m n : Nat} (first : d.Onward m d') (second : d'.Onward n d'') :
    d.Onward (m + n) d'' := by
  obtain ⟨read, reads, fewer⟩ := first.reads
  obtain ⟨more, further, still⟩ := second.reads
  have early := first.accesses
  have late := second.accesses
  refine ⟨second.quiet, second.published.trans first.published, ⟨read ++ more, ?_, ?_⟩,
    second.calls.trans first.calls, by omega⟩
  · rw [further, reads, List.append_assoc]
  · rw [List.length_append]
    omega

/-- What the sink tries to log while the relay is stopped leaves channel and consumer alone. -/
theorem exists_acts_eq {p : Pipeline σ} (stopped : p.channel.running = false) (now : UInt64)
    {acts : List Act} (logs : ∀ a ∈ acts, a.logs = true) :
    ∃ state scratch, acts.foldl (fun p a => p.act now a) p =
      { p with sink := state, scratch := scratch } := by
  have channel := Pipeline.channel_acts_of_stopped now acts p logs stopped
  have drain := (Pipeline.acts_spare now acts p).2.1
  refine ⟨(acts.foldl (fun p a => p.act now a) p).sink,
    (acts.foldl (fun p a => p.act now a) p).scratch, ?_⟩
  rw [← channel, ← drain]

/-- Flags, notices and the sink's own state do not matter for the drain. -/
theorem Quiet.onward_of_eq (quiet : d.Quiet) {threshold : Severity} {running : Bool}
    {notices : List Notice}
    (channel : d'.pipeline.channel = { d.pipeline.channel with threshold, running, notices })
    (drain : d'.pipeline.drain = d.pipeline.drain) (stopped : running = false)
    (admitted : d'.admitted = d.admitted) (call : d'.call.isSome = d.call.isSome)
    (reads : d'.reads = d.reads) (calls : d'.calls = d.calls) : d.Onward 0 d' := by
  obtain ⟨⟨⟨channel', drain', state, scratch⟩, stoppable, timeout⟩, call', arriving, admitted',
    reads', calls'⟩ := d'
  dsimp only [Draining.pipeline] at channel drain admitted reads calls
  subst channel drain admitted reads calls
  refine ⟨⟨stopped, quiet.noneAdmitted⟩, rfl, ⟨[], (List.append_nil _).symm, ?_⟩, ?_, ?_⟩
  · rw [List.length_nil, Nat.zero_add]
    exact Nat.le_refl _
  · cases call' with
    | none =>
      have idle : d.call = none :=
        Option.isNone_iff_eq_none.1 (Option.isSome_eq_false_iff.1 call.symm)
      rw [due_of_idle rfl, due_of_idle idle]
      rfl
    | some reply =>
      obtain ⟨earlier, under⟩ := Option.isSome_iff_exists.1 call.symm
      rw [due_of_call rfl, due_of_call under]
      rfl
  · rw [accessesLeft, accessesLeft, call]
    exact Nat.le_refl _

theorem Quiet.onward_tune (quiet : d.Quiet) (sink : Sink σ) {event : DrainingEvent}
    (tunes : event.tunes = true) : d.Onward 0 (d.next sink event) := by
  obtain ⟨relay, threshold, running, notices, stepped, same, stays⟩ :=
    exists_next_eq_of_tunes sink d tunes
  have channel := congrArg Pipeline.channel same
  have drain := congrArg Pipeline.drain same
  rw [stepped]
  exact quiet.onward_of_eq channel drain (stays quiet.stopped) rfl rfl rfl rfl

theorem Inv.onward_act (inv : d.Inv) (quiet : d.Quiet) (sink : Sink σ) (now : UInt64) :
    d.Onward 0 (d.next sink (.act now)) := by
  rw [Draining.next]
  split
  · next state a rest outcome under =>
    have logs : ∀ b ∈ [a], b.logs = true := by
      intro b member
      rw [List.mem_singleton.1 member]
      exact (inv.calling _ under).2 a List.mem_cons_self
    have channel := Pipeline.channel_acts_of_stopped now [a] d.pipeline logs quiet.stopped
    have drain := (d.pipeline.act_spares now a).2.1
    exact quiet.onward_of_eq channel drain quiet.stopped rfl (by rw [under]; rfl) rfl rfl
  · exact quiet.onward_self

theorem Inv.onward_end (inv : d.Inv) (quiet : d.Quiet) {reply : Sink.Reply σ}
    (under : d.call = some reply) (now : UInt64) : d.Onward 1 (d.consume sink now) := by
  obtain ⟨⟨call, calls⟩, logs⟩ := inv.calling reply under
  have traced := traced_acts inv.traced now reply.acts logs
  -- what the sink still tries comes to nothing, so the loop goes on from where it made the call
  obtain ⟨state, scratch, acted⟩ := exists_acts_eq quiet.stopped now logs
  obtain ⟨going, -⟩ := inv.traced.movesLeft_pos calls
  rw [acted] at traced
  have descends := traced.descends (sink.onlyLogs_answering reply.outcome) quiet.stopped now
  obtain ⟨rest, reads⟩ := descends.of_calls? calls
  have fewer : _ < d.pipeline.movesLeft := descends.moves going
  rw [consume_of_call under, ending, acted]
  refine ⟨⟨descends.stopped, quiet.noneAdmitted⟩, descends.published,
    ⟨[], (List.append_nil _).symm, ?_⟩, ?_, ?_⟩
  · rw [List.length_nil, Nat.zero_add]
    exact reads
  · rw [due_of_call under]
    exact congrArg _ rest
  · rw [accessesLeft_of_idle rfl, accessesLeft_of_call under]
    exact Nat.le_sub_of_add_le (Nat.le_sub_of_add_le (Nat.mul_le_mul_left 2 fewer))

theorem Inv.onward_begin (inv : d.Inv) (quiet : d.Quiet) (idle : d.call = none) {call : SinkCall}
    (calls : d.pipeline.calls? = some call) (now : UInt64) :
    d.Onward 1 (d.consume sink now) := by
  obtain ⟨-, left⟩ := inv.traced.movesLeft_pos calls
  rw [consume_of_calls? idle calls]
  refine ⟨⟨quiet.stopped, quiet.noneAdmitted⟩, rfl, ⟨[], (List.append_nil _).symm, ?_⟩, ?_, ?_⟩
  · rw [List.length_nil, Nat.zero_add]
    exact Nat.le_refl _
  · rw [due_of_idle idle, Pipeline.due, Pipeline.decided_of_calls? calls]
    exact List.append_assoc _ _ _
  · rw [accessesLeft_of_call rfl, accessesLeft_of_idle idle]
    exact Nat.le_refl _

theorem Inv.onward_silent (only : sink.OnlyLogs) (inv : d.Inv) (quiet : d.Quiet)
    (idle : d.call = none) (silent : d.pipeline.calls? = none) (now : UInt64) :
    d.Onward 1 (d.consume sink now) := by
  obtain ⟨stopped, published, due, reads, moves⟩ := inv.traced.descends only quiet.stopped now
  rw [silent] at due
  rw [consume_of_silent idle silent]
  refine ⟨⟨stopped, quiet.noneAdmitted⟩, published, ⟨_, rfl, reads⟩, ?_, ?_⟩
  · rw [due_of_idle idle, due_of_idle (by exact idle)]
    exact congrArg _ due
  · rw [accessesLeft_of_idle idle, accessesLeft_of_idle (by exact idle)]
    show 2 * (d.pipeline.step sink now).movesLeft ≤ 2 * d.pipeline.movesLeft - 1
    cases ended : d.pipeline.isEnded with
    | true =>
      have none := Pipeline.movesLeft_of_isEnded ended
      rw [d.pipeline.step_ended sink now ended]
      omega
    | false =>
      have fewer := moves ended
      omega

/-- **An event of a quiet relay brings its drain nearer to the end**, if it is an access of the
consumer, and changes nothing else. -/
theorem Inv.onward_next (only : sink.OnlyLogs) (inv : d.Inv) (quiet : d.Quiet)
    (event : DrainingEvent) :
    d.Onward (if event.consumes then 1 else 0) (d.next sink event) := by
  cases event with
  | consume now =>
    cases under : d.call with
    | some reply => exact inv.onward_end quiet under now
    | none =>
      cases calls : d.pipeline.calls? with
      | some call => exact inv.onward_begin quiet under calls now
      | none => exact inv.onward_silent only quiet under calls now
  | setThreshold threshold | stop | await => exact quiet.onward_tune sink rfl
  | arrive state now entry =>
    show d.Onward 0 _
    rw [Draining.next]
    split
    · exact quiet.onward_of_eq rfl rfl quiet.stopped rfl rfl rfl rfl
    · exact quiet.onward_self
  | letIn i =>
    show d.Onward 0 _
    rw [Draining.next]
    split
    · exact quiet.onward_self
    · exact quiet.onward_of_eq rfl rfl quiet.stopped (by rw [quiet.stopped]; rfl) rfl rfl rfl
  | conclude i =>
    rw [Draining.next, quiet.noneAdmitted]
    exact quiet.onward_self
  | act now => exact inv.onward_act quiet sink now

theorem Inv.onward_run (only : sink.OnlyLogs) (events : List DrainingEvent) (inv : d.Inv)
    (quiet : d.Quiet) :
    d.Onward (events.countP DrainingEvent.consumes) (d.run sink events) := by
  induction events generalizing d with
  | nil => exact quiet.onward_self
  | cons event rest ih =>
    have first := inv.onward_next only quiet event
    rw [List.countP_cons, Nat.add_comm]
    exact first.trans (ih (inv.next only event) first.quiet)

/-! ### The end -/

theorem Inv.ended_of_accessesLeft (inv : d.Inv) (exhausted : d.accessesLeft = 0) :
    d.pipeline.isEnded = true ∧ d.due = [] := by
  cases under : d.call with
  | some reply =>
    obtain ⟨⟨call, calls⟩, -⟩ := inv.calling reply under
    obtain ⟨-, left⟩ := inv.traced.movesLeft_pos calls
    rw [accessesLeft_of_call under] at exhausted
    omega
  | none =>
    rw [accessesLeft_of_idle under] at exhausted
    obtain ⟨log, overlap, accounts, -⟩ := inv.traced.accounts
    have ended := Pipeline.isEnded_of_movesLeft accounts.knows
      (show d.pipeline.movesLeft = 0 by omega)
    exact ⟨ended, (due_of_idle under).trans (Pipeline.due_of_isEnded ended)⟩

theorem drain_tune (sink : Sink σ) (d : Draining σ) {event : DrainingEvent}
    (tunes : event.tunes = true) : (d.next sink event).pipeline.drain = d.pipeline.drain := by
  obtain ⟨relay, _, _, _, stepped, same, -⟩ := exists_next_eq_of_tunes sink d tunes
  rw [stepped]
  show relay.pipeline.drain = d.pipeline.drain
  rw [same]
  rfl

/-- Nothing but an access of the consumer moves the loop. -/
theorem drain_next (sink : Sink σ) (d : Draining σ) {event : DrainingEvent}
    (other : event.consumes = false) : (d.next sink event).pipeline.drain = d.pipeline.drain := by
  cases event with
  | consume now => cases other
  | setThreshold threshold | stop | await => exact drain_tune sink d rfl
  | arrive state now entry | letIn i | conclude i =>
    rw [next]
    split <;> rfl
  | act now =>
    rw [next]
    split
    · exact (d.pipeline.act_spares now _).2.1
    · rfl

/-- A loop that has just been left had nothing to read, and a flush is due. -/
theorem Inv.exits (inv : d.Inv) {event : DrainingEvent} (inside : d.pipeline.hasLeft = false)
    (left : (d.next sink event).pipeline.hasLeft = true) :
    (d.next sink event).ring.published ≤ (d.next sink event).pipeline.drain.cursor ∧
      (d.next sink event).due = [.flush] := by
  have stays : (d.next sink event).pipeline.drain = d.pipeline.drain → False := by
    intro same
    rw [Pipeline.hasLeft, same] at left
    cases inside.symm.trans left
  cases event with
  | consume now =>
    rw [Draining.next] at left ⊢
    cases under : d.call with
    | some reply =>
      have traced := traced_acts inv.traced now reply.acts (inv.calling reply under).2
      have drain := (Pipeline.acts_spare now reply.acts d.pipeline).2.1
      rw [consume_of_call under] at left ⊢
      refine traced.leaves ?_ left
      rw [Pipeline.hasLeft, drain]
      exact inside
    | none =>
      cases calls : d.pipeline.calls? with
      | some call =>
        refine (stays ?_).elim
        rw [Draining.next, consume_of_calls? under calls]
        rfl
      | none =>
        rw [consume_of_silent under calls] at left ⊢
        rw [due_of_idle (by exact under)]
        exact inv.traced.leaves inside left
  | _ => exact (stays (drain_next sink d rfl)).elim

/-- **The law of the drain.** -/
structure Drains (sink : Sink σ) (d : Draining σ) : Prop where
  /-- When the loop is left there is nothing to read, all of the last round was read, and only a
  flush is due. -/
  exits : ∀ event,
    let later := d.next sink event
    d.pipeline.hasLeft = false → later.pipeline.hasLeft = true →
      later.ring.published ≤ later.pipeline.drain.cursor ∧
        (∀ s < later.ring.published, s ∈ later.reads ∨ s + later.slotCount < later.ring.published) ∧
        later.due = [.flush]
  /-- No sequence is read twice, and none out of turn. -/
  ordered : d.reads.Pairwise (· < ·)
  /-- All of the last round that was not read waits. -/
  waits : ∀ s < d.ring.published, s ∉ d.reads →
    d.ring.published ≤ s + d.slotCount → d.ring.consumed ≤ s
  /-- Every record that waits can be handed over. -/
  whole : d.pipeline.channel.waiting.length = d.ring.length
  /-- The record of a call that was decided on, or is under way, does not wait any more. -/
  apart : ∀ f, d.pipeline.decided = some (.write f) → d.pipeline.drain.cursor < d.ring.consumed
  /-- Before the loop is left what is due is the call that was decided on, then all records that
  wait, and one flush. -/
  due : d.pipeline.hasLeft = false → d.due =
    (if d.call.isSome then [] else d.pipeline.decided.toList) ++
      d.pipeline.channel.waiting.map .write ++ [.flush]
  /-- Once the relay is quiet nothing is published, no more is read than is ahead of the loop, and
  only calls that are due are made. After enough accesses of the consumer, whatever happens between
  them, it is done and has made them all. -/
  drained : d.Quiet → ∀ events,
    let later := d.run sink events
    later.ring.published = d.ring.published ∧
      (∃ more, later.reads = d.reads ++ more ∧ more.length ≤ d.lag) ∧
      later.calls <+: d.calls ++ d.due ∧
      (10 * d.lag + 12 ≤ events.countP DrainingEvent.consumes →
        later.pipeline.isEnded = true ∧ later.calls = d.calls ++ d.due)

theorem Inv.drains (only : sink.OnlyLogs) (inv : d.Inv) : d.Drains sink where
  exits := by
    intro event later inside left
    obtain ⟨done, due⟩ := inv.exits inside left
    have readTo : later.ring.published ≤ later.pipeline.readTo :=
      Nat.le_trans done later.pipeline.cursor_le_readTo
    have read := (inv.next only event).traced.read
    exact ⟨done, fun s below => read s (Nat.lt_of_lt_of_le below readTo), due⟩
  ordered := inv.traced.ordered
  waits := fun s _ free recent => inv.traced.consumed_le free recent
  whole := by
    obtain ⟨log, overlap, accounts, encodings, -⟩ := inv.traced.accounts
    exact accounts.length_waiting encodings
  apart := fun _ decided => inv.traced.cursor_lt_of_decided decided
  due := by
    intro inside
    have awaited : d.pipeline.awaited = d.pipeline.channel.waiting.map .write ++ [.flush] := by
      rw [Pipeline.awaited, inside]
      rfl
    cases under : d.call with
    | none => rw [due_of_idle under, Pipeline.due, awaited, ← List.append_assoc]; rfl
    | some reply => rw [due_of_call under, awaited]; rfl
  drained := by
    intro quiet events later
    have onward := inv.onward_run only events quiet
    obtain ⟨more, reads, fewer⟩ := onward.reads
    have ahead := d.pipeline.cursor_le_readTo
    rw [readsLeft, readsLeft] at fewer
    refine ⟨onward.published, ⟨more, reads, ?_⟩, ⟨_, onward.calls⟩, fun enough => ?_⟩
    · rw [Draining.lag]
      omega
    · have accesses := onward.accesses
      have most := d.accessesLeft_le
      obtain ⟨ended, none⟩ := (inv.run only events).ended_of_accessesLeft (by omega)
      have calls := onward.calls
      rw [none, List.append_nil] at calls
      exact ⟨ended, calls⟩

/-- **A relay that is stopped drains**, whatever its sink does, and wherever in their work the
consumer, the sink and the writers are when it is told to stop. -/
theorem drains_run (sink : Sink σ) (only : sink.OnlyLogs) (settings : Settings) (state : σ)
    {r : Relay σ} (started : Relay.start settings state = .ok r) (events : List DrainingEvent) :
    (({ relay := r } : Draining σ).run sink events).Drains sink :=
  ((inv_start started).run only events).drains only

/-- A sink that logs what it is handed twice and fails, and that logs and panics when it is
flushed. -/
def heckling : Sink Unit where
  write _ f :=
    { state := ()
      acts := List.replicate 2 (.log (.bytes (.solo .error 9) f.record.message))
      outcome := .failed .writeZero }
  flush _ := { state := (), acts := [.log (.bytes (.solo .error 9) [9])], outcome := .panicked }

/-- The sink is handed a record and logs it once. Then the relay is stopped, with another write let
through, and the sink logs in vain. At last the write comes to its end. -/
def nightfall : List DrainingEvent :=
  [.arrive .free 1 (.bytes (.solo .warn 1) [1]), .letIn 0, .conclude 0] ++
    List.replicate 5 (.consume 2) ++
    [.act 3, .arrive .free 4 (.bytes (.solo .warn 1) [4]), .letIn 0, .stop, .act 5, .conclude 0]

theorem drains_run_nightfall : ∃ r, Relay.start Admission.pocket () = .ok r ∧
    heckling.OnlyLogs ∧
    (({ relay := r } : Draining Unit).run heckling nightfall).Drains heckling ∧
    (({ relay := r } : Draining Unit).run heckling nightfall).Quiet ∧
    (({ relay := r } : Draining Unit).run heckling nightfall).lag = 3 ∧
    (({ relay := r } : Draining Unit).run heckling
      (nightfall ++ List.replicate 42 (.consume 6))).calls.map
        (fun | .write f => f.record.message | .flush => []) = [[1], [1], [4], []] := by
  have only : heckling.OnlyLogs := by
    refine ⟨?_, ?_⟩
    · intro _ f a member
      obtain ⟨-, rfl⟩ := List.mem_replicate.1 member
      rfl
    · intro _ a member
      rw [List.mem_singleton.1 member]
      rfl
  exact ⟨_, rfl, only, drains_run heckling only Admission.pocket () rfl nightfall,
    ⟨rfl, rfl⟩, rfl, by decide⟩

end Draining

end LogRelay