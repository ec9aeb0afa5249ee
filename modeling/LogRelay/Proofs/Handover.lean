/-
# Handing records over while others publish

Whatever the order in which writers publish between the accesses of the loop, what the sink is
handed comes in the order of its sequences and is what was published under them, and what it is not
handed was overtaken by a whole round of later records. Once the loop is told to stop and nobody
publishes it comes to its end, with nothing that is retained left behind.

Key definitions: `Handover.Safe`, `Handover.Advances`.
Key theorems: `Handover.Inv.advances`, `Handover.Inv.exits`, `Handover.handover_safe`.
-/
import LogRelay.Proofs.Carrying
import LogRelay.Proofs.Ending

namespace LogRelay

namespace Handover

variable {σ : Type} {sink : Sink σ} {h h' : Handover σ}

/-- What holds at every moment. -/
structure Safe (sink : Sink σ) (h : Handover σ) : Prop where
  /-- Sequences are handed over in order, and so none of them twice. -/
  ordered : h.handedSequences.Pairwise (· < ·)
  /-- What is handed over under `s` was published under it, or under a later one with its stamp. -/
  carried : ∀ s f, (s, f) ∈ h.handed → ∃ t, s ≤ t ∧ writtenStamp t = writtenStamp s ∧
    h.Published t f
  /-- As long as fewer than 2 ^ 63 records followed it was published under `s` itself. -/
  published : ∀ s f, (s, f) ∈ h.handed → h.published.length ≤ s + 0x8000000000000000 →
    h.Published s f
  /-- What was skipped was overtaken by a whole round. -/
  lapped : ∀ s < h.cursor, s ∉ h.handedSequences → s + h.slotCount + 1 ≤ h.ring.published
  published_eq : h.ring.published = h.published.length
  consumed_le : h.ring.consumed ≤ h.ring.published
  published_le : h.ring.published ≤ h.ring.consumed + h.slotCount
  consumed_mono : ∀ event, h.ring.consumed ≤ (h.next sink event).ring.consumed
  /-- Told to stop, and with nobody who publishes, the loop comes to its end. -/
  exits : h.pipeline.channel.running = false → ¬ h.HasLeft → ∀ times : List UInt64,
    5 * (h.ring.published - h.cursor) + 6 ≤ times.length →
      (h.run sink (times.map .consume)).published = h.published →
        let last := h.run sink (times.map .consume)
        last.pipeline.isEnded = true ∧ last.cursor = last.ring.consumed ∧
          last.ring.consumed = last.ring.published ∧
            ∀ s < last.ring.published, last.ring.published ≤ s + last.slotCount →
              s ∈ last.handedSequences

/-! ### Coming to an end -/

/-- What an access of the loop does beside keeping the invariant. -/
structure Advances (sink : Sink σ) (h h' : Handover σ) : Prop where
  consumed_le : h.ring.consumed ≤ h'.ring.consumed
  running : h'.pipeline.channel.running = h.pipeline.channel.running
  /-- The loop is left only with everything consumed. -/
  left : h.pipeline.fed sink = [] → (h.HasLeft → h.ring.published ≤ h.cursor) →
    h'.HasLeft → h'.ring.published ≤ h'.cursor

theorem advances_enter {phase : DrainPhase} {unflushed : Bool}
    (left : ({ h with pipeline := { h.pipeline with
      drain := ⟨h.cursor, unflushed, phase⟩ } } : Handover σ).HasLeft →
        (h.HasLeft → h.ring.published ≤ h.cursor) → h.ring.published ≤ h.cursor) :
    Advances sink h { h with pipeline := { h.pipeline with
      drain := ⟨h.cursor, unflushed, phase⟩ } } where
  consumed_le := Nat.le_refl _
  running := rfl
  left _ settled has := left has settled

theorem Inv.advances (only : sink.OnlyPublishes) (inv : h.Inv) (now : UInt64) :
    Advances sink h (h.next sink (.consume now)) := by
  cases at_ : h.pipeline.drain.phase with
  | polling =>
    rw [next_consume (by rw [at_]; rfl)]
    simp only [Pipeline.step, at_]
    split
    · exact advances_enter fun has _ => False.elim has
    · exact advances_enter fun has _ => False.elim has
  | catchingUp snapshot =>
    rw [next_consume (by rw [at_]; rfl)]
    simp only [Pipeline.step, at_]
    split
    · exact ⟨Nat.le_refl _, rfl, fun _ _ has => False.elim has⟩
    · exact ⟨Nat.le_refl _, rfl, fun _ _ has => False.elim has⟩
  | reading | parked =>
    rw [next_consume (by rw [at_]; rfl)]
    simp only [Pipeline.step, at_]
    exact advances_enter fun has _ => False.elim has
  | releasing found =>
    rw [next_consume (by rw [at_]; rfl)]
    simp only [Pipeline.step, at_]
    exact ⟨Nat.le_max_left _ _, rfl, fun _ _ has => False.elim has⟩
  | delivering found =>
    obtain ⟨fed, drain⟩ := Pipeline.fed_deliver only inv.keeps inv.within now at_
    simp only [Handover.next, Pipeline.step, at_, drain]
    exact ⟨fed.consumed_le, fed.running, fun _ _ has => False.elim has⟩
  | idling =>
    rw [next_consume (by rw [at_]; rfl)]
    simp only [Pipeline.step, at_]
    split
    · exact advances_enter fun has _ => False.elim has
    · split
      · exact advances_enter fun has _ => False.elim has
      · exact advances_enter fun has _ => False.elim has
  | leaving =>
    rw [next_consume (by rw [at_]; rfl)]
    simp only [Pipeline.step, at_]
    split
    · next done => exact advances_enter fun _ _ => done
    · exact advances_enter fun has _ => False.elim has
  | flushing =>
    obtain ⟨fed, drain⟩ := Pipeline.fed_flush only inv.keeps inv.within now (.inl at_)
    simp only [Handover.next, Pipeline.step, at_, drain]
    exact ⟨fed.consumed_le, fed.running, fun _ _ has => False.elim has⟩
  | closing =>
    obtain ⟨fed, drain⟩ := Pipeline.fed_flush only inv.keeps inv.within now (.inr at_)
    have cursor : (h.pipeline.flush sink now).drain.cursor = h.cursor := by rw [drain]
    simp only [Handover.next, Pipeline.step, at_]
    refine ⟨fed.consumed_le, fed.running, fun silent settled _ => ?_⟩
    have same : (h.pipeline.flush sink now).channel.ring.published = h.ring.published := by
      rw [fed.keeps.published, silent, List.append_nil, inv.keeps.published]
    have le : h.ring.published ≤ h.cursor := settled (by rw [HasLeft, at_]; trivial)
    show (h.pipeline.flush sink now).channel.ring.published ≤
      (h.pipeline.flush sink now).drain.cursor
    omega
  | ended panicked =>
    rw [next_consume (by rw [at_]; rfl)]
    simp only [Pipeline.step, at_]
    exact ⟨Nat.le_refl _, rfl, fun _ settled has => settled has⟩

theorem Inv.pipeline_knows (inv : h.Inv) : h.pipeline.Knows := by
  have knows := inv.knows
  unfold Pipeline.Knows
  cases at_ : h.pipeline.drain.phase with
  | catchingUp snapshot | reading =>
    rw [at_] at knows
    exact knows
  | releasing found | delivering found =>
    rw [at_] at knows
    obtain ⟨lt, ⟨-, lapped⟩ | ⟨f, -, ready⟩⟩ := knows
    · exact ⟨lt, fun _ => lapped⟩
    · exact ⟨lt, fun gone => nomatch gone.symm.trans ready⟩
  | _ => trivial

/-- If the sink publishes nothing, a loop that is told to stop comes nearer to its end. -/
theorem Inv.movesLeft_lt (only : sink.OnlyPublishes) (inv : h.Inv) (now : UInt64)
    (stopped : h.pipeline.channel.running = false) (silent : h.pipeline.fed sink = [])
    (going : h.pipeline.isEnded = false) :
    (h.next sink (.consume now)).pipeline.movesLeft < h.pipeline.movesLeft := by
  have served := Pipeline.fed_served only.neverCommits inv.keeps inv.within now
  rw [Pipeline.givenNext_eq only, silent] at served
  refine Pipeline.movesLeft_step_lt sink inv.pipeline_knows stopped going now ?_
  rw [served.keeps.published, List.append_nil, ← inv.keeps.published]

theorem length_published_le (sink : Sink σ) (h : Handover σ) (events : List HandoverEvent) :
    h.published.length ≤ (h.run sink events).published.length := by
  induction events generalizing h with
  | nil => exact Nat.le_refl _
  | cons event rest ih =>
    refine Nat.le_trans ?_ (ih (h.next sink event))
    cases event with
    | stop => exact Nat.le_refl _
    | _ => exact (List.sublist_append_left _ _).length_le

/-- A loop that is told to stop, while nobody publishes, comes to its end with everything
consumed. -/
theorem Inv.exits (only : sink.OnlyPublishes) (times : List UInt64) (inv : h.Inv)
    (stopped : h.pipeline.channel.running = false)
    (settled : h.HasLeft → h.ring.published ≤ h.cursor)
    (enough : h.pipeline.movesLeft ≤ times.length)
    (quiet : (h.run sink (times.map .consume)).published = h.published) :
    (h.run sink (times.map .consume)).pipeline.isEnded = true ∧
      (h.run sink (times.map .consume)).ring.published ≤
        (h.run sink (times.map .consume)).cursor := by
  induction times generalizing h with
  | nil =>
    have ended := Pipeline.isEnded_of_movesLeft inv.pipeline_knows (Nat.eq_zero_of_le_zero enough)
    refine ⟨ended, settled ?_⟩
    unfold Pipeline.isEnded at ended
    unfold HasLeft
    split at ended
    · next at_ => rw [at_]; trivial
    · cases ended
  | cons now rest ih =>
    have grown := length_published_le sink (h.next sink (.consume now)) (rest.map .consume)
    have silent : h.pipeline.fed sink = [] := by
      have total : (h.published ++ h.pipeline.fed sink).length ≤ h.published.length :=
        Nat.le_trans grown (Nat.le_of_eq (congrArg List.length quiet))
      rw [List.length_append] at total
      exact List.length_eq_zero_iff.1 (by omega)
    have unchanged : (h.next sink (.consume now)).published = h.published := by
      show h.published ++ h.pipeline.fed sink = h.published
      rw [silent, List.append_nil]
    have advances := inv.advances only now
    refine ih (inv.consume only now) (advances.running.trans stopped)
      (advances.left silent settled) ?_ (quiet.trans unchanged.symm)
    rw [List.length_cons] at enough
    cases going : h.pipeline.isEnded with
    | false =>
      have fewer := inv.movesLeft_lt only now stopped silent going
      omega
    | true =>
      have none : (h.next sink (.consume now)).pipeline.movesLeft = 0 := by
        show (h.pipeline.step sink now).movesLeft = 0
        rw [Pipeline.step_ended sink _ now going]
        exact Pipeline.movesLeft_of_isEnded going
      omega

theorem Inv.safe (only : sink.OnlyPublishes) (inv : h.Inv) : h.Safe sink where
  ordered := inv.ordered
  carried := inv.carries
  published := by
    intro s f member few
    obtain ⟨t, le, stamp, published⟩ := inv.carries s f member
    obtain ⟨r, at_, -⟩ := id published
    have inside := (List.getElem?_eq_some_iff.1 at_).1
    cases eq_of_writtenStamp_eq le (Nat.lt_of_lt_of_le inside few) stamp
    exact published
  lapped := inv.lost
  published_eq := inv.keeps.published
  consumed_le := inv.within.consumed_le
  published_le := inv.within.published_le
  consumed_mono := by
    intro event
    cases event with
    | publish mode r => exact (Channel.fed_publishBy inv.keeps inv.within mode r.encode).consumed_le
    | consume now => exact (inv.advances only now).consumed_le
    | stop => exact Nat.le_refl _
  exits := by
    intro stopped inside times enough quiet last
    obtain ⟨ended, upper⟩ := inv.exits only times stopped (fun has => absurd has inside)
      (Nat.le_trans h.pipeline.movesLeft_le enough) quiet
    have final : last.Inv := inv.run only _
    have upper : last.ring.published ≤ last.cursor := upper
    have lower : last.cursor ≤ last.ring.consumed := by
      have le := final.floor_le
      rw [floor] at le
      split at le <;> omega
    have window := final.within.consumed_le
    refine ⟨ended, by omega, by omega, ?_⟩
    intro s lt retained
    refine Decidable.byContradiction fun missed => ?_
    have lapped := final.lost s (by omega) missed
    omega

/-- **Nothing is lost between ring and sink but what was overtaken.** Whatever was published before
the consumer began, whatever writers, consumer and sink do afterwards, and in whatever order, what
the sink is handed and what is skipped are as `Safe` says. -/
theorem handover_safe (sink : Sink σ) (only : sink.OnlyPublishes) (g : Geometry)
    (mode : WriterMode) (threshold : Severity) (earlier : List (WriterMode × Record)) (state : σ)
    (events : List HandoverEvent) :
    ((start g mode threshold earlier state).run sink events).Safe sink :=
  ((inv_start g mode threshold earlier state).run only events).safe only

/-- A sink that publishes a record of its own when it is handed the first one. -/
def echoing : Sink Bool where
  write echoed _ :=
    { state := true
      acts := if echoed then [] else [.publish (Record.encode ⟨7, .warn, 0, [1]⟩)] }

/-- Three records into two slots, and the echo of the first that is handed over. -/
def echoed : Handover Bool :=
  (start .twoSlots .single .trace
    [(.single, ⟨1, .info, 3, [65]⟩), (.claimed, ⟨2, .error, 3, [66, 67, 68]⟩)] false).run echoing
    (.publish .single ⟨3, .info, 3, []⟩ :: .stop :: (List.replicate 24 0).map .consume)

theorem handover_safe_echoing : echoing.OnlyPublishes ∧ echoed.Safe echoing ∧
    echoed.handedSequences = [1, 2, 3] ∧ echoed.pipeline.isEnded = true := by
  have only : echoing.OnlyPublishes := by
    refine ⟨?_, ?_⟩
    · intro heard f a member
      cases heard with
      | true => cases member
      | false => exact ⟨_, congrArg Act.encoded? (List.mem_singleton.1 member)⟩
    · intro heard a member
      cases member
  exact ⟨only, handover_safe echoing only _ _ _ _ _ _, by decide, by decide⟩

end Handover

end LogRelay