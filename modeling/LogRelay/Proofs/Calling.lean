/-
# Calls of the sink

The loop calls its sink in three places: over the record in its hands, before it rests, and before
it ends. Which call a step makes is read off the phase of the loop (`Pipeline.calls?`). That the
call is made, once and no other, shows in the sink: a step changes its state as this call does, and
leaves it alone where it makes none (`Pipeline.sink_step`). So the calls that were listed along a
run are those that brought the sink to the state it is in (`Sink.after`), and what it answered to
them is known from the list as well (`Sink.answers`).

Key definitions: `SinkCall`, `Sink.reply`, `Sink.after`, `Sink.answers`, `Sink.answering`,
`Pipeline.calls?`.
Key theorems: `Pipeline.reply?_eq`, `Pipeline.sink_step`, `Pipeline.step_eq_answering`.
-/
import LogRelay.Proofs.Feeding

namespace LogRelay

/-- One call of a sink. -/
inductive SinkCall
  | write (f : Frame)
  | flush
  deriving DecidableEq, Repr

/-- The record that a sink is handed in a call. -/
def SinkCall.frame? : SinkCall → Option Frame
  | .write f => some f
  | .flush => none

namespace Sink

variable {σ : Type}

/-- What a call comes to. -/
def reply (sink : Sink σ) (s : σ) : SinkCall → Sink.Reply σ
  | .write f => sink.write s f
  | .flush => sink.flush s

/-- The state of a sink after some calls, one after the other. -/
def after (sink : Sink σ) (s : σ) (calls : List SinkCall) : σ :=
  calls.foldl (fun s call => (sink.reply s call).state) s

theorem after_append (sink : Sink σ) (s : σ) (calls more : List SinkCall) :
    sink.after s (calls ++ more) = sink.after (sink.after s calls) more := List.foldl_append

/-- How some calls end, one after the other. -/
def answers (sink : Sink σ) (s : σ) : List SinkCall → List Outcome
  | [] => []
  | call :: rest => (sink.reply s call).outcome :: sink.answers (sink.reply s call).state rest

theorem answers_append (sink : Sink σ) (s : σ) (calls more : List SinkCall) :
    sink.answers s (calls ++ more) =
      sink.answers s calls ++ sink.answers (sink.after s calls) more := by
  induction calls generalizing s with
  | nil => rfl
  | cons call rest ih => exact congrArg (_ :: ·) (ih _)

/-- The sink at the end of a call: it has done what it does, and only answers. -/
def answering (sink : Sink σ) (outcome : Outcome) : Sink σ where
  write s _ := { state := s, outcome }
  flush s := { state := s, outcome }
  panicsAtEnd := sink.panicsAtEnd

theorem onlyLogs_answering (sink : Sink σ) (outcome : Outcome) :
    (sink.answering outcome).OnlyLogs := by
  refine ⟨?_, ?_⟩
  · intro s f a member
    cases member
  · intro s a member
    cases member

theorem OnlyLogs.reply {sink : Sink σ} (only : sink.OnlyLogs) (s : σ) (call : SinkCall) :
    ∀ a ∈ (sink.reply s call).acts, a.logs = true := by
  cases call with
  | write f => exact only.1 s f
  | flush => exact only.2 s

end Sink

/-- The record that was found, if one was. -/
def Ring.Reading.frame? : Ring.Reading → Option Frame
  | .ready bytes => (Frame.decode bytes).toOption
  | .overwritten | .corrupt _ => none

namespace Pipeline

variable {σ : Type} {sink : Sink σ} {p p' : Pipeline σ}

/-- The call that the consumer makes in its next step, if it makes one. -/
def calls? (p : Pipeline σ) : Option SinkCall :=
  match p.drain.phase with
  | .delivering found => found.frame?.map .write
  | .flushing | .closing => some .flush
  | _ => none

theorem calls?_congr (drain : p'.drain = p.drain) : p'.calls? = p.calls? := by
  rw [calls?, calls?, drain]

/-- A call is made with a record in the hands of the loop, or to flush. -/
theorem callsSink_of_calls? {call : SinkCall} (calls : p.calls? = some call) :
    p.drain.phase.callsSink = true := by
  unfold calls? at calls
  cases at_ : p.drain.phase with
  | delivering found | flushing | closing => rfl
  | _ =>
    rw [at_] at calls
    cases calls

theorem inHand_of_delivering {found : Ring.Reading} (at_ : p.drain.phase = .delivering found) :
    p.inHand = found.frame? := by
  rw [inHand, at_]
  cases found <;> rfl

/-- What the sink does in a step is what it does in the call. -/
theorem reply?_eq (sink : Sink σ) (p : Pipeline σ) :
    p.reply? sink = p.calls?.map (sink.reply p.sink) := by
  unfold reply? calls?
  cases at_ : p.drain.phase with
  | delivering found =>
    dsimp only
    rw [inHand_of_delivering at_, Option.map_map]
    rfl
  | _ => rfl

theorem bind_calls?_frame? (p : Pipeline σ) : p.calls?.bind SinkCall.frame? = p.inHand := by
  cases at_ : p.drain.phase with
  | delivering found =>
    rw [inHand_of_delivering at_, calls?, at_]
    dsimp only
    cases found.frame? <;> rfl
  | _ =>
    rw [calls?, inHand, at_]
    rfl

theorem sink_acts (now : UInt64) (acts : List Act) (p : Pipeline σ) :
    (acts.foldl (fun p a => p.act now a) p).sink = p.sink := by
  induction acts generalizing p with
  | nil => rfl
  | cons a rest ih =>
    refine (ih (p.act now a)).trans ?_
    cases a <;> rfl

theorem sink_served (sink : Sink σ) (p : Pipeline σ) (now : UInt64) :
    (p.served sink now).sink = sink.after p.sink p.calls?.toList := by
  rw [served, reply?_eq]
  cases p.calls? with
  | none => rfl
  | some call => exact sink_acts now _ _

/-- **A step calls the sink as its phase says**, and not otherwise. -/
theorem sink_step (sink : Sink σ) (p : Pipeline σ) (now : UInt64) :
    (p.step sink now).sink = sink.after p.sink p.calls?.toList := by
  cases at_ : p.drain.phase with
  | delivering found | flushing | closing =>
    obtain ⟨_, _, _, stepped⟩ := exists_step_eq sink (by rw [at_]; rfl) now
    rw [stepped, ← sink_served sink p now]
    rfl
  | polling | leaving | idling | catchingUp published | reading | releasing found | parked
  | ended panicked =>
    simp only [step, calls?, at_]
    repeat split
    all_goals rfl

/-- A step that calls the sink is what the sink does, and then a step with its answer. -/
theorem step_eq_answering {call : SinkCall} (calls : p.calls? = some call) (now : UInt64) :
    p.step sink now = (p.accept now (sink.reply p.sink call)).step
      (sink.answering (sink.reply p.sink call).outcome) now := by
  have drain : (p.accept now (sink.reply p.sink call)).drain = p.drain :=
    (acts_spare now _ ({ p with sink := (sink.reply p.sink call).state } : Pipeline σ)).2.1
  unfold calls? at calls
  cases at_ : p.drain.phase with
  | delivering found =>
    rw [at_] at calls
    obtain ⟨f, some, rfl⟩ := Option.map_eq_some_iff.1 calls
    cases found with
    | overwritten | corrupt e => cases some
    | ready bytes =>
      have decoded : Frame.decode bytes = .ok f := by
        cases decoded : Frame.decode bytes with
        | error e =>
          rw [Ring.Reading.frame?, decoded] at some
          cases some
        | ok g =>
          rw [Ring.Reading.frame?, decoded] at some
          cases some
          rfl
      simp only [step, at_, drain, deliver, decoded, handOver]
      rfl
  | flushing | closing =>
    rw [at_] at calls
    cases calls
    simp only [step, at_, drain, flush]
    rfl
  | _ =>
    rw [at_] at calls
    cases calls

end Pipeline

end LogRelay
