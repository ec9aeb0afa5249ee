/-
# Stopping a relay

A relay is used and stopped while its consumer works; the sink may take as long as it likes over a
record, and log. The first call that stops the relay is the only one that is answered with anything
but a refusal. From then on nothing is published, lost or refused any more, so all that is left to
happen is that the consumer hands over what the ring holds.

If the consumer is done in time nothing is left. If it is not, the caller is told how many records
wait in the ring, and one more may be in the hands of the sink. As soon as the sink lets it go on,
the consumer hands all of them over, in order, and comes to its end.

The calls of the sink are listed as the consumer makes them, and the sink is in the state to which
they have brought it.

Key definitions: `Stopping`, `Stopping.WindsDown`, `Stopping.Onward`.
Key theorems: `Stopping.Inv.next_of_stopped`, `Stopping.Inv.isEnded_run`, `Stopping.Answered.next`,
`Stopping.Called.next`, `Stopping.windsDown_run`.
-/
import LogRelay.Proofs.Moving

namespace LogRelay

/-- A relay that is used and stopped, with the answers that those who stopped it got and the calls
of its sink. -/
structure Stopping (σ : Type) where
  relay : Relay σ
  answers : List (Except RelayError Unit) := []
  calls : List SinkCall := []

/-- The event is a move of the consumer. -/
def RelayEvent.consumes : RelayEvent → Bool
  | .consume _ => true
  | .log .. | .logIfEnabled .. | .setThreshold _ | .shutdown _ => false

namespace Stopping

variable {σ : Type} {sink : Sink σ} {s : Stopping σ}

/-- The records that the sink was handed. -/
def handed (s : Stopping σ) : List Frame := s.calls.filterMap SinkCall.frame?

/-- The consumer makes a move. If it has a record in its hands, this is when the sink lets it go. -/
def consume (sink : Sink σ) (s : Stopping σ) (now : UInt64) : Stopping σ where
  relay := { s.relay with pipeline := s.relay.pipeline.move sink now }
  answers := s.answers
  calls := s.calls ++ s.relay.pipeline.calls?.toList

/-- The end of a shutdown is answered. -/
def conclude (s : Stopping σ) : Stopping σ :=
  { s with relay := s.relay.endShutdown.2, answers := s.answers ++ [s.relay.endShutdown.1] }

/-- The relay after one more event. -/
def next (sink : Sink σ) (s : Stopping σ) : RelayEvent → Stopping σ
  | .log scratch now entry => { s with relay := (s.relay.log scratch now entry).1 }
  | .logIfEnabled scratch now entry =>
    { s with relay := (s.relay.logIfEnabled scratch now entry).1 }
  | .setThreshold threshold => { s with relay := s.relay.setThreshold threshold }
  | .shutdown times =>
    match s.relay.beginShutdown with
    | .error e => { s with answers := s.answers ++ [.error e] }
    | .ok relay => (times.foldl (consume sink) { s with relay }).conclude
  | .consume now => s.consume sink now

/-- The relay after some more events. -/
def run (sink : Sink σ) (s : Stopping σ) (events : List RelayEvent) : Stopping σ :=
  events.foldl (next sink) s

/-- A sink that began in `state` is as the calls that are listed have made it. -/
def Called (sink : Sink σ) (state : σ) (s : Stopping σ) : Prop :=
  s.relay.pipeline.sink = sink.after state s.calls

/-- **The law of stopping**, for a relay that was started with a sink in `state`. -/
structure WindsDown (sink : Sink σ) (state : σ) (s : Stopping σ) : Prop where
  /-- The sink was called as it is listed, and not otherwise. -/
  called : s.Called sink state
  /-- All calls but the first are refused, and the first is not. -/
  answers : ∀ (i : Nat) (inside : i < s.answers.length),
    s.answers[i] = .error .alreadyShutDown ↔ i ≠ 0
  /-- From a call that stops the relay on, whatever happens during and after it, nothing is
  published, lost or refused. -/
  shut : ∀ (times : List UInt64) (events : List RelayEvent),
    s.relay.channel.Shut ((s.next sink (.shutdown times)).run sink events).relay.channel
  /-- If the consumer was done in time, everything was counted once, and that is final. -/
  drained : .ok () ∈ s.answers → s.relay.pipeline.Balanced ∧ ∀ events : List RelayEvent,
    (s.run sink events).relay.stats = s.relay.stats ∧ (s.run sink events).relay.pipeline.Balanced
  /-- If it was not, the caller is told how many records wait. Besides them only the one in the
  hands of the sink is not counted. When the sink lets the consumer go on, and the consumer goes
  on for long enough, all of them are handed over, in order, and everything is counted once. -/
  pending : ∀ (times : List UInt64) (pending : Nat), s.answers = [] →
    (s.next sink (.shutdown times)).answers = [.error (.shutdownTimeout pending)] →
      let told := s.next sink (.shutdown times)
      told.relay.stats.published = told.relay.stats.delivered + told.relay.stats.sinkFailures +
          told.relay.stats.decodeFailures + told.relay.stats.overflowed + pending +
            told.relay.pipeline.inHand.toList.length ∧
        told.relay.channel.waiting.length = pending ∧
        ∀ events : List RelayEvent,
          5 * (told.relay.channel.ring.published - told.relay.pipeline.drain.cursor) + 6 ≤
              events.countP RelayEvent.consumes →
            (told.run sink events).relay.pipeline.isEnded = true ∧
              (told.run sink events).relay.pipeline.Balanced ∧
              (told.run sink events).Called sink state ∧
              (told.run sink events).handed =
                told.handed ++ (told.relay.pipeline.inHand.toList ++ told.relay.channel.waiting)

/-! #### The invariant -/

/-- What was answered so far. -/
def Answered (s : Stopping σ) : Prop :=
  match s.answers with
  | [] => s.relay.stoppable = true
  | first :: rest => s.relay.stoppable = false ∧ first ≠ .error .alreadyShutDown ∧
    (∀ a ∈ rest, a = .error .alreadyShutDown) ∧
      (first = .ok () → s.relay.pipeline.isEnded = true)

/-- **The invariant** of a relay that is used and stopped. -/
structure Inv (s : Stopping σ) : Prop where
  orderly : s.relay.pipeline.Orderly
  stoppable : s.relay.stoppable = s.relay.channel.running

theorem Inv.consume (only : sink.OnlyLogs) (inv : s.Inv) (now : UInt64) :
    (s.consume sink now).Inv where
  orderly := inv.orderly.move only now
  stoppable := inv.stoppable.trans (inv.orderly.running_move sink now).symm

theorem Inv.log (inv : s.Inv) (scratch : Scratch) (now : UInt64) (entry : Entry 1) :
    ({ s with relay := (s.relay.log scratch now entry).1 } : Stopping σ).Inv := by
  have written := s.relay.channel.writtenTo_log scratch now entry
  rw [Relay.log_fst]
  exact ⟨inv.orderly.log scratch now entry, inv.stoppable.trans written.running.symm⟩

/-- The relay as it is when the caller begins to wait. -/
def begun (s : Stopping σ) : Stopping σ :=
  { s with relay := { s.relay with stoppable := false, pipeline := s.relay.pipeline.stop } }

theorem Inv.begun (inv : s.Inv) : s.begun.Inv where
  orderly := inv.orderly.retuned s.relay.channel.threshold s.relay.channel.notices nofun
  stoppable := rfl

theorem Inv.conclude (inv : s.Inv) : s.conclude.Inv := by
  obtain ⟨notices, same⟩ := s.relay.exists_endShutdown_eq
  have orderly := inv.orderly.retuned s.relay.channel.threshold notices fun running => running
  refine ⟨?_, ?_⟩
  · show s.relay.endShutdown.2.pipeline.Orderly
    rw [same]
    exact orderly
  · show s.relay.endShutdown.2.stoppable = s.relay.endShutdown.2.channel.running
    rw [same]
    exact inv.stoppable

theorem next_shutdown_of_stoppable (stoppable : s.relay.stoppable = true) (times : List UInt64) :
    s.next sink (.shutdown times) = (times.foldl (Stopping.consume sink) s.begun).conclude := by
  simp only [next, Relay.beginShutdown, stoppable, if_true]
  rfl

theorem next_shutdown_of_not_stoppable (stoppable : s.relay.stoppable = false)
    (times : List UInt64) : s.next sink (.shutdown times) =
      { s with answers := s.answers ++ [.error .alreadyShutDown] } := by
  simp only [next, Relay.beginShutdown, stoppable, Bool.false_eq_true, if_false]

theorem Inv.foldl_consume (only : sink.OnlyLogs) (times : List UInt64) (inv : s.Inv) :
    (times.foldl (Stopping.consume sink) s).Inv := by
  induction times generalizing s with
  | nil => exact inv
  | cons now rest ih => exact ih (inv.consume only now)

/-- **Every event keeps the invariant.** -/
theorem Inv.next (only : sink.OnlyLogs) (inv : s.Inv) (event : RelayEvent) :
    (s.next sink event).Inv := by
  cases event with
  | log scratch now entry => exact inv.log scratch now entry
  | logIfEnabled scratch now entry =>
    rw [Stopping.next, Relay.logIfEnabled_eq_log]
    exact inv.log scratch now entry
  | setThreshold threshold =>
    exact ⟨inv.orderly.retuned threshold s.relay.channel.notices fun running => running,
      inv.stoppable⟩
  | consume now => exact inv.consume only now
  | shutdown times =>
    cases stoppable : s.relay.stoppable with
    | false =>
      rw [next_shutdown_of_not_stoppable stoppable]
      exact ⟨inv.orderly, inv.stoppable⟩
    | true =>
      rw [next_shutdown_of_stoppable stoppable]
      exact (inv.begun.foldl_consume only times).conclude

/-! #### Calls -/

theorem handed_consume (sink : Sink σ) (s : Stopping σ) (now : UInt64) :
    (s.consume sink now).handed = s.handed ++ s.relay.pipeline.inHand.toList := by
  rw [handed, handed, Stopping.consume, List.filterMap_append, ← Pipeline.bind_calls?_frame?]
  cases s.relay.pipeline.calls? with
  | none => rfl
  | some call => cases call <;> rfl

variable {state : σ}

theorem Called.consume (called : s.Called sink state) (now : UInt64) :
    (s.consume sink now).Called sink state := by
  rw [Called] at called
  rw [Called, Stopping.consume, Sink.after_append, ← called]
  exact s.relay.pipeline.sink_move sink now

theorem Called.foldl_consume (times : List UInt64) (called : s.Called sink state) :
    (times.foldl (Stopping.consume sink) s).Called sink state := by
  induction times generalizing s with
  | nil => exact called
  | cons now rest ih => exact ih (called.consume now)

theorem Called.conclude (called : s.Called sink state) : s.conclude.Called sink state := by
  obtain ⟨notices, same⟩ := s.relay.exists_endShutdown_eq
  show s.relay.endShutdown.2.pipeline.sink = _
  rw [same]
  exact called

/-- **Whatever happens, the sink is called as it is listed.** -/
theorem Called.next (called : s.Called sink state) (event : RelayEvent) :
    (s.next sink event).Called sink state := by
  cases event with
  | log scratch now entry =>
    show (s.relay.log scratch now entry).1.pipeline.sink = _
    rw [Relay.log_fst]
    exact called
  | logIfEnabled scratch now entry =>
    show (s.relay.logIfEnabled scratch now entry).1.pipeline.sink = _
    rw [Relay.logIfEnabled_eq_log, Relay.log_fst]
    exact called
  | setThreshold threshold => exact called
  | consume now => exact called.consume now
  | shutdown times =>
    cases stoppable : s.relay.stoppable with
    | false =>
      rw [next_shutdown_of_not_stoppable stoppable]
      exact called
    | true =>
      have begun : s.begun.Called sink state := called
      rw [next_shutdown_of_stoppable stoppable]
      exact (begun.foldl_consume times).conclude

theorem Called.run (events : List RelayEvent) (called : s.Called sink state) :
    (s.run sink events).Called sink state := by
  induction events generalizing s with
  | nil => exact called
  | cons event rest ih => exact ih (called.next event)

/-! #### Once the relay is stopped -/

/-- What becomes of a relay that is stopped already. -/
structure Onward (s s' : Stopping σ) : Prop where
  inv : s'.Inv
  shut : s.relay.channel.Shut s'.relay.channel
  stoppable : s'.relay.stoppable = s.relay.stoppable
  /-- What the sink was handed and what it is still to be handed are the same records. -/
  handed : s'.handed ++ s'.relay.pipeline.unhanded = s.handed ++ s.relay.pipeline.unhanded
  /-- Once the consumer is done the counts are final. -/
  final : s.relay.pipeline.isEnded = true →
    s'.relay.pipeline.isEnded = true ∧ s'.relay.stats = s.relay.stats

variable {s' s'' : Stopping σ}

theorem Onward.trans (first : s.Onward s') (second : s'.Onward s'') : s.Onward s'' where
  inv := second.inv
  shut := first.shut.trans second.shut
  stoppable := second.stoppable.trans first.stoppable
  handed := second.handed.trans first.handed
  final ended :=
    ⟨(second.final (first.final ended).1).1,
      (second.final (first.final ended).1).2.trans (first.final ended).2⟩

theorem Inv.onward_consume (only : sink.OnlyLogs) (inv : s.Inv)
    (stopped : s.relay.channel.running = false) (now : UInt64) :
    s.Onward (s.consume sink now) where
  inv := inv.consume only now
  shut := inv.orderly.shut_move only stopped now
  stoppable := rfl
  handed := by
    rw [handed_consume, List.append_assoc]
    exact congrArg (s.handed ++ ·) (inv.orderly.unhanded_move only stopped now)
  final ended := by
    have still : (s.consume sink now).relay.pipeline = s.relay.pipeline :=
      Pipeline.move_ended sink now ended
    rw [Relay.stats, Relay.channel, still]
    exact ⟨ended, rfl⟩

theorem Inv.onward_foldl (only : sink.OnlyLogs) (times : List UInt64) (inv : s.Inv)
    (stopped : s.relay.channel.running = false) :
    s.Onward (times.foldl (Stopping.consume sink) s) := by
  induction times generalizing s with
  | nil => exact ⟨inv, ⟨stopped, rfl, rfl, rfl⟩, rfl, rfl, fun ended => ⟨ended, rfl⟩⟩
  | cons now rest ih =>
    have first := inv.onward_consume only stopped now
    exact first.trans (ih first.inv first.shut.running)

/-- **What can happen to a relay that is stopped**: the consumer makes a move, or all but the
threshold and the answers stays as it is. -/
theorem Inv.next_of_stopped (inv : s.Inv) (sink : Sink σ)
    (stopped : s.relay.channel.running = false) (event : RelayEvent) :
    (event.consumes = true ∧ ∃ now, s.next sink event = s.consume sink now) ∨
      (event.consumes = false ∧ ∃ threshold answers,
        s.next sink event = { s with relay := s.relay.setThreshold threshold, answers }) := by
  have refused := Channel.accepts_of_stopped stopped
  cases event with
  | consume now => exact .inl ⟨rfl, now, rfl⟩
  | setThreshold threshold => exact .inr ⟨rfl, threshold, s.answers, rfl⟩
  | log scratch now entry =>
    refine .inr ⟨rfl, s.relay.channel.threshold, s.answers, ?_⟩
    rw [Stopping.next, Relay.log_of_not_accepts scratch now entry (refused _)]
    rfl
  | logIfEnabled scratch now entry =>
    refine .inr ⟨rfl, s.relay.channel.threshold, s.answers, ?_⟩
    rw [Stopping.next, Relay.logIfEnabled_eq_log,
      Relay.log_of_not_accepts scratch now entry (refused _)]
    rfl
  | shutdown times =>
    refine .inr ⟨rfl, s.relay.channel.threshold, s.answers ++ [.error .alreadyShutDown], ?_⟩
    rw [next_shutdown_of_not_stoppable (inv.stoppable.trans stopped)]
    rfl

theorem Inv.onward_next (only : sink.OnlyLogs) (inv : s.Inv)
    (stopped : s.relay.channel.running = false) (event : RelayEvent) :
    s.Onward (s.next sink event) := by
  rcases inv.next_of_stopped sink stopped event with ⟨-, now, next⟩ | ⟨-, threshold, answers, next⟩
  · rw [next]
    exact inv.onward_consume only stopped now
  · rw [next]
    refine ⟨⟨?_, inv.stoppable⟩, ⟨stopped, rfl, rfl, rfl⟩, rfl, rfl, fun ended => ⟨ended, rfl⟩⟩
    exact inv.orderly.retuned threshold s.relay.channel.notices fun running => running

theorem Inv.onward_run (only : sink.OnlyLogs) (events : List RelayEvent) (inv : s.Inv)
    (stopped : s.relay.channel.running = false) : s.Onward (s.run sink events) := by
  induction events generalizing s with
  | nil => exact ⟨inv, ⟨stopped, rfl, rfl, rfl⟩, rfl, rfl, fun ended => ⟨ended, rfl⟩⟩
  | cons event rest ih =>
    have first := inv.onward_next only stopped event
    exact first.trans (ih first.inv first.shut.running)

/-- Only moves bring the consumer nearer to its end, and each of them does. -/
theorem Inv.movesLeft_next (only : sink.OnlyLogs) (inv : s.Inv)
    (stopped : s.relay.channel.running = false) (going : s.relay.pipeline.isEnded = false)
    (event : RelayEvent) :
    (s.next sink event).relay.pipeline.movesLeft + (if event.consumes then 1 else 0) ≤
      s.relay.pipeline.movesLeft := by
  rcases inv.next_of_stopped sink stopped event with
    ⟨moves, now, next⟩ | ⟨rests, threshold, answers, next⟩
  · rw [next, if_pos moves]
    exact inv.orderly.movesLeft_move_lt only stopped going now
  · rw [next, rests]
    exact Nat.le_refl s.relay.pipeline.movesLeft

/-- **A consumer that is let go on comes to its end.** -/
theorem Inv.isEnded_run (only : sink.OnlyLogs) (events : List RelayEvent) (inv : s.Inv)
    (stopped : s.relay.channel.running = false)
    (enough : s.relay.pipeline.movesLeft ≤ events.countP RelayEvent.consumes) :
    (s.run sink events).relay.pipeline.isEnded = true := by
  cases going : s.relay.pipeline.isEnded with
  | true => exact ((inv.onward_run only events stopped).final going).1
  | false =>
    induction events generalizing s with
    | nil =>
      obtain ⟨log, accounts, -⟩ := inv.orderly.accounts
      exact Pipeline.isEnded_of_movesLeft accounts.knows (Nat.eq_zero_of_le_zero enough)
    | cons event rest ih =>
      have first := inv.onward_next only stopped event
      have nearer := inv.movesLeft_next only stopped going event
      rw [List.countP_cons] at enough
      cases there : (s.next sink event).relay.pipeline.isEnded with
      | true => exact ((first.inv.onward_run only rest first.shut.running).final there).1
      | false => exact ih first.inv first.shut.running (by omega) there

/-! #### Answers -/

theorem answers_foldl_consume (sink : Sink σ) (times : List UInt64) (s : Stopping σ) :
    (times.foldl (Stopping.consume sink) s).answers = s.answers := by
  induction times generalizing s with
  | nil => rfl
  | cons now rest ih => exact ih (s.consume sink now)

theorem Inv.onward_conclude (inv : s.Inv) (stopped : s.relay.channel.running = false) :
    s.Onward s.conclude := by
  obtain ⟨notices, same⟩ := s.relay.exists_endShutdown_eq
  have concluded : s.conclude.relay = s.relay.endShutdown.2 := rfl
  rw [same] at concluded
  refine ⟨inv.conclude, ?_, ?_, ?_, ?_⟩
  · rw [concluded]
    exact ⟨stopped, rfl, rfl, rfl⟩
  · rw [concluded]
    rfl
  · rw [concluded]
    rfl
  · rw [concluded]
    exact fun ended => ⟨ended, rfl⟩

/-- All that happens to a relay between the beginning of the wait and the answer. -/
theorem Inv.onward_shutdown (only : sink.OnlyLogs) (inv : s.Inv) (times : List UInt64) :
    s.begun.Onward (times.foldl (Stopping.consume sink) s.begun).conclude := by
  have waited := inv.begun.onward_foldl only times rfl
  exact waited.trans (waited.inv.onward_conclude waited.shut.running)

theorem Inv.shut_shutdown (only : sink.OnlyLogs) (inv : s.Inv) (times : List UInt64) :
    s.relay.channel.Shut (s.next sink (.shutdown times)).relay.channel := by
  cases stoppable : s.relay.stoppable with
  | false => exact (inv.onward_next only (inv.stoppable.symm.trans stoppable) _).shut
  | true =>
    have begun : s.relay.channel.Shut s.begun.relay.channel := ⟨rfl, rfl, rfl, rfl⟩
    rw [next_shutdown_of_stoppable stoppable]
    exact begun.trans (inv.onward_shutdown only times).shut

theorem answers_next (sink : Sink σ) (s : Stopping σ) (event : RelayEvent) :
    (∃ times, event = .shutdown times) ∨ (s.next sink event).answers = s.answers ∧
      (s.next sink event).relay.stoppable = s.relay.stoppable := by
  cases event with
  | shutdown times => exact .inl ⟨times, rfl⟩
  | log scratch now entry | logIfEnabled scratch now entry | setThreshold threshold | consume now =>
    exact .inr ⟨rfl, rfl⟩

/-- The first call is answered, and with success only if the consumer is done. -/
theorem Inv.answered_shutdown (only : sink.OnlyLogs) (inv : s.Inv) (none : s.answers = [])
    (stoppable : s.relay.stoppable = true) (times : List UInt64) :
    (s.next sink (.shutdown times)).Answered := by
  obtain ⟨waited, def_⟩ : ∃ w, w = times.foldl (Stopping.consume sink) s.begun := ⟨_, rfl⟩
  have onward := inv.begun.onward_foldl only times rfl
  have list := answers_foldl_consume sink times s.begun
  rw [← def_] at onward list
  have concluded := onward.inv.onward_conclude onward.shut.running
  have answer : waited.conclude.answers = [waited.relay.endShutdown.1] := by
    show waited.answers ++ _ = _
    rw [list]
    exact congrArg (· ++ _) none
  rw [next_shutdown_of_stoppable stoppable, ← def_, Answered, answer, Relay.endShutdown_fst]
  refine ⟨concluded.stoppable.trans onward.stoppable, ?_, nofun, ?_⟩
  · split <;> nofun
  · intro ok
    split at ok
    · next done => exact (concluded.final (onward.inv.orderly.finished.symm.trans done)).1
    · cases ok

/-- **Only the first call is answered with anything but a refusal.** -/
theorem Answered.next (only : sink.OnlyLogs) (inv : s.Inv) (answered : s.Answered)
    (event : RelayEvent) : (s.next sink event).Answered := by
  unfold Answered at answered
  cases given : s.answers with
  | nil =>
    rw [given] at answered
    rcases answers_next sink s event with ⟨times, rfl⟩ | ⟨same, stoppable⟩
    · exact inv.answered_shutdown only given answered times
    · rw [Answered, same, given, stoppable]
      exact answered
  | cons first rest =>
    rw [given] at answered
    obtain ⟨stoppable, granted, refusals, done⟩ := answered
    have onward := inv.onward_next only (inv.stoppable.symm.trans stoppable) event
    have kept : first = .ok () → (s.next sink event).relay.pipeline.isEnded = true :=
      fun ok => (onward.final (done ok)).1
    rcases answers_next sink s event with ⟨times, rfl⟩ | ⟨same, -⟩
    · have list : (s.next sink (.shutdown times)).answers =
          first :: (rest ++ [.error .alreadyShutDown]) := by
        rw [next_shutdown_of_not_stoppable stoppable]
        exact congrArg (· ++ _) given
      rw [Answered, list]
      refine ⟨onward.stoppable.trans stoppable, granted, ?_, kept⟩
      intro a member
      rcases List.mem_append.1 member with old | new
      · exact refusals a old
      · exact List.mem_singleton.1 new
    · rw [Answered, same, given]
      exact ⟨onward.stoppable.trans stoppable, granted, refusals, kept⟩

theorem Answered.eq_alreadyShutDown_iff {s : Stopping σ} (answered : s.Answered) (i : Nat)
    (inside : i < s.answers.length) : s.answers[i] = .error .alreadyShutDown ↔ i ≠ 0 := by
  obtain ⟨relay, answers, calls⟩ := s
  cases answers with
  | nil => exact absurd inside (Nat.not_lt_zero i)
  | cons first rest =>
    obtain ⟨-, granted, refusals, -⟩ := answered
    cases i with
    | zero => exact iff_of_false granted fun no => no rfl
    | succ i => exact iff_of_true (refusals _ (List.getElem_mem _)) (Nat.succ_ne_zero i)

/-- What the caller is told to be pending is what the ring holds. -/
theorem length_of_shutdownTimeout (stoppable : s.relay.stoppable = true) {times : List UInt64}
    {pending : Nat} (none : s.answers = [])
    (answer : (s.next sink (.shutdown times)).answers = [.error (.shutdownTimeout pending)]) :
    (s.next sink (.shutdown times)).relay.pipeline.channel.ring.length = pending := by
  obtain ⟨waited, def_⟩ : ∃ w, w = times.foldl (Stopping.consume sink) s.begun := ⟨_, rfl⟩
  have list : waited.answers = [] := by
    rw [def_, answers_foldl_consume]
    exact none
  obtain ⟨notices, same⟩ := waited.relay.exists_endShutdown_eq
  rw [next_shutdown_of_stoppable stoppable, ← def_] at answer ⊢
  show waited.relay.endShutdown.2.pipeline.channel.ring.length = pending
  rw [same]
  have told : waited.answers ++ [waited.relay.endShutdown.1] =
    [.error (.shutdownTimeout pending)] := answer
  rw [list, List.nil_append, Relay.endShutdown_fst, List.singleton_inj] at told
  split at told
  · cases told
  · cases told
    rfl

/-! #### The law -/

theorem Inv.windsDown (only : sink.OnlyLogs) (inv : s.Inv) (answered : s.Answered)
    (called : s.Called sink state) : s.WindsDown sink state where
  called := called
  answers := answered.eq_alreadyShutDown_iff
  shut := by
    intro times events
    have shut := inv.shut_shutdown only times
    exact shut.trans ((inv.next only _).onward_run only events shut.running).shut
  drained := by
    intro ok
    unfold Answered at answered
    cases given : s.answers with
    | nil =>
      rw [given] at ok
      cases ok
    | cons first rest =>
      rw [given] at answered ok
      obtain ⟨stoppable, -, refusals, done⟩ := answered
      have ended : s.relay.pipeline.isEnded = true := by
        rcases List.mem_cons.1 ok with same | later
        · exact done same.symm
        · cases refusals _ later
      refine ⟨(inv.orderly.balanced ended).1, ?_⟩
      intro events
      have onward := inv.onward_run only events (inv.stoppable.symm.trans stoppable)
      obtain ⟨still, stats⟩ := onward.final ended
      exact ⟨stats, (onward.inv.orderly.balanced still).1⟩
  pending := by
    intro times pending none answer told
    have stoppable : s.relay.stoppable = true := by
      rw [Answered, none] at answered
      exact answered
    have inv' : told.Inv := inv.next only _
    have shut := inv.shut_shutdown only times
    have length : told.relay.pipeline.channel.ring.length = pending :=
      length_of_shutdownTimeout stoppable none answer
    obtain ⟨log, accounts, encodings⟩ := inv'.orderly.accounts
    have published := inv'.orderly.published_eq
    rw [length] at published
    refine ⟨published, (accounts.length_waiting encodings).trans length, ?_⟩
    intro events enough
    have onward := inv'.onward_run only events shut.running
    have ended := inv'.isEnded_run only events shut.running
      (Nat.le_trans (Pipeline.movesLeft_le _) enough)
    obtain ⟨balanced, nothing⟩ := onward.inv.orderly.balanced ended
    have handed := onward.handed
    rw [nothing, List.append_nil] at handed
    exact ⟨ended, balanced, (called.next _).run events, handed⟩

theorem Inv.run (only : sink.OnlyLogs) (events : List RelayEvent) (inv : s.Inv)
    (answered : s.Answered) : (s.run sink events).Inv ∧ (s.run sink events).Answered := by
  induction events generalizing s with
  | nil => exact ⟨inv, answered⟩
  | cons event rest ih => exact ih (inv.next only event) (answered.next only inv event)

theorem inv_start {settings : Settings} {state : σ} {r : Relay σ}
    (started : Relay.start settings state = .ok r) :
    ({ relay := r } : Stopping σ).Inv ∧ ({ relay := r } : Stopping σ).Answered ∧
      ({ relay := r } : Stopping σ).Called sink state := by
  obtain ⟨g, -, rfl⟩ := Relay.exists_ofGeometry_of_start started
  have accounts := Pipeline.accounts_start (c := (Relay.ofGeometry settings g state).channel)
    (Ring.keeps_empty g) (Ring.within_empty g) rfl rfl state
  refine ⟨⟨⟨⟨[], accounts, ?_⟩, rfl, ?_, nofun, nofun, rfl⟩, rfl⟩, rfl, rfl⟩
  · intro encoded member
    cases member
  · intro found at_
    cases at_

/-- **Stopping a relay winds it down**, wherever in its work the consumer is when it is told to
stop, and whatever callers do before, meanwhile and afterwards. -/
theorem windsDown_run (sink : Sink σ) (only : sink.OnlyLogs) (settings : Settings) (state : σ)
    {r : Relay σ} (started : Relay.start settings state = .ok r) (events : List RelayEvent) :
    (({ relay := r } : Stopping σ).run sink events).WindsDown sink state := by
  obtain ⟨inv, answered, called⟩ := inv_start started
  obtain ⟨inv, answered⟩ := inv.run only events answered
  exact inv.windsDown only answered (called.run events)

/-- A sink that logs a record of its own whenever it is handed one, which comes to nothing once the
relay is stopped. -/
def babbling : Sink Unit where
  write _ f := { state := (), acts := [.log (.bytes (.solo .error 9) f.record.message)] }

/-- Three records for two slots, of which the second is in the hands of the sink, and one more. -/
def afternoon : List RelayEvent :=
  [.log {} 1 (.bytes (.solo .warn 1) [1]), .log {} 2 (.bytes (.solo .warn 2) [2]),
    .log {} 3 (.bytes (.solo .warn 3) [3]), .consume 4, .consume 4, .setThreshold .trace,
    .log {} 5 (.bytes (.solo .trace 5) [5])]

/-- The sink keeps the record for longer than the caller waits, then it goes on. -/
def evening : List RelayEvent :=
  .shutdown [] :: .log {} 6 (.bytes (.solo .error 6) [6]) :: List.replicate 30 (.consume 7) ++
    [.shutdown [8]]

theorem windsDown_run_afternoon : ∃ r, Relay.start Admission.pocket () = .ok r ∧
    babbling.OnlyLogs ∧
    (({ relay := r } : Stopping Unit).run babbling afternoon).WindsDown babbling () ∧
    (({ relay := r } : Stopping Unit).run babbling (afternoon ++ evening)).answers =
      [.error (.shutdownTimeout 2), .error .alreadyShutDown] ∧
    (({ relay := r } : Stopping Unit).run babbling (afternoon ++ evening)).handed.map
      (·.record.timestamp) = [2, 3, 5] ∧
    (({ relay := r } : Stopping Unit).run babbling (afternoon ++ evening)).relay.stats =
      ⟨4, 3, 1, 0, 0, 0, 0⟩ := by
  have only : babbling.OnlyLogs := by
    refine ⟨?_, ?_⟩
    · intro _ f a member
      rw [List.mem_singleton.1 member]
      rfl
    · intro _ a member
      cases member
  exact ⟨_, rfl, only, windsDown_run babbling only Admission.pocket () rfl afternoon,
    rfl, by decide, by decide⟩

end Stopping

end LogRelay