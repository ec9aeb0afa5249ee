/-
# What the loop carries to the sink

The consumer's loop is cut at its shared accesses, and writers publish whole records between any two
of them, in any mode and any number; so does the sink while it is called. What the loop has in its
hands under a sequence was published under it, or under a later one with the same stamp: stamps are
words of 64 bits, so a stamp says which sequence is in a slot up to a multiple of 2 ^ 63.

The loop keeps a cursor of its own beside the one that it shares with the writers. The shared one
is never behind (`floor_le`), and where it is ahead the writers have pushed it, so it stands
exactly one round below the last published record (`gap`). What the loop's cursor skips is
therefore lost.

Key definitions: `Handover`, `Handover.next`, `Handover.run`, `Handover.Inv`.
Key theorems: `Handover.Inv.fed`, `Handover.Inv.finds`, `Handover.Inv.next`, `Handover.inv_start`.
-/
import LogRelay.Proofs.Accounting

namespace LogRelay

/-! ### A pipeline and its story -/

/-- A pipeline with what happened so far. -/
structure Handover (σ : Type) where
  pipeline : Pipeline σ
  /-- The encoded records that were published, each at its sequence. -/
  published : List Bytes
  /-- What the sink was handed, each frame with its sequence, the first one in front. -/
  handed : List (Nat × Frame) := []

/-- What may happen to a pipeline. -/
inductive HandoverEvent
  /-- A writer of a mode publishes a record. -/
  | publish (mode : WriterMode) (r : Record)
  /-- The consumer makes its next access, at a clock reading. -/
  | consume (now : UInt64)
  /-- The consumer is told to stop. -/
  | stop

/-- The channel after a writer of a mode published a record. -/
def Channel.give (c : Channel) (mode : WriterMode) (r : Record) : Channel :=
  { c with ring := (c.ring.publishBy mode r.encode).2 }

namespace Handover

variable {σ : Type}

/-- A consumer that begins on a ring into which some records were published before. -/
def start (g : Geometry) (mode : WriterMode) (threshold : Severity)
    (earlier : List (WriterMode × Record)) (state : σ) : Handover σ where
  pipeline := .start
    (earlier.foldl (fun c e => c.give e.1 e.2) (Channel.ofGeometry g mode threshold)) state
  published := earlier.map (·.2.encode)

/-- The story after one more event. -/
def next (sink : Sink σ) (h : Handover σ) : HandoverEvent → Handover σ
  | .publish mode r =>
    { h with
      pipeline := h.pipeline.mapChannel (·.give mode r)
      published := h.published ++ [r.encode] }
  | .consume now =>
    { pipeline := h.pipeline.step sink now
      published := h.published ++ h.pipeline.fed sink
      handed := h.handed ++ (h.pipeline.inHand.map fun f => (h.pipeline.drain.cursor, f)).toList }
  | .stop => { h with pipeline := h.pipeline.stop }

/-- The story after some more events. -/
def run (sink : Sink σ) (h : Handover σ) (events : List HandoverEvent) : Handover σ :=
  events.foldl (next sink) h

/-- The ring. -/
abbrev ring (h : Handover σ) : Ring h.pipeline.channel.geometry := h.pipeline.channel.ring

/-- How many records the ring holds. -/
abbrev slotCount (h : Handover σ) : Nat := h.pipeline.channel.geometry.slotCount

/-- The loop's own cursor. -/
abbrev cursor (h : Handover σ) : Nat := h.pipeline.drain.cursor

/-- The sequences that the sink was handed. -/
def handedSequences (h : Handover σ) : List Nat := h.handed.map Prod.fst

/-- `f` is what a slot keeps of the record that was published under `s`. -/
def Published (h : Handover σ) (s : Nat) (f : Frame) : Prop :=
  ∃ r : Record, h.published[s]? = some r.encode ∧
    f = ⟨h.pipeline.channel.geometry.fitted r, (h.pipeline.channel.geometry.fitted r).encode⟩

/-- The loop was left. -/
def HasLeft (h : Handover σ) : Prop :=
  match h.pipeline.drain.phase with
  | .closing | .ended _ => True
  | _ => False

/-! ### The invariant -/

/-- What the loop is to hand over under `s`: a frame that was published under a sequence with the
stamp of `s`. -/
def Carries (h : Handover σ) (s : Nat) (f : Frame) : Prop :=
  ∃ t, s ≤ t ∧ writtenStamp t = writtenStamp s ∧ h.Published t f

/-- What the loop may have found under `s`. -/
def Finds (h : Handover σ) (s : Nat) (found : Ring.Reading) : Prop :=
  (found = .overwritten ∧ s + h.slotCount < h.ring.published) ∨
    ∃ f, h.Carries s f ∧ found = .ready f.bytes

/-- Every sequence below was given back by the loop. -/
def floor (h : Handover σ) : Nat :=
  match h.pipeline.drain.phase with
  | .delivering _ => h.cursor + 1
  | _ => h.cursor

/-- What the loop knows in a phase. -/
def Knows (h : Handover σ) : DrainPhase → Prop
  | .catchingUp published => h.cursor < published ∧ published ≤ h.ring.published
  | .reading => h.cursor < h.ring.published
  | .releasing found | .delivering found => h.cursor < h.ring.published ∧ h.Finds h.cursor found
  | _ => True

/-- **The invariant.** -/
structure Inv (h : Handover σ) : Prop where
  keeps : h.ring.Keeps h.published
  within : h.ring.Within
  encodings : ∀ e ∈ h.published, ∃ r : Record, e = r.encode
  floor_le : h.floor ≤ h.ring.consumed
  gap : h.ring.consumed ≤ h.floor ∨ h.ring.consumed + h.slotCount ≤ h.ring.published
  lost : ∀ s < h.cursor, s ∉ h.handedSequences → s + h.slotCount < h.ring.published
  below : ∀ s ∈ h.handedSequences, s < h.cursor
  ordered : h.handedSequences.Pairwise (· < ·)
  carries : ∀ s f, (s, f) ∈ h.handed → h.Carries s f
  knows : h.Knows h.pipeline.drain.phase

variable {h h' : Handover σ} {sink : Sink σ}

/-! ### Publishing -/

theorem Carries.mono {s : Nat} {f : Frame} (carries : h.Carries s f) {more : List Bytes}
    (geometry : h'.pipeline.channel.geometry = h.pipeline.channel.geometry)
    (published : h'.published = h.published ++ more) : h'.Carries s f := by
  obtain ⟨t, le, stamp, r, at_, eq⟩ := carries
  have inside := (List.getElem?_eq_some_iff.1 at_).1
  refine ⟨t, le, stamp, r, ?_, ?_⟩
  · rw [published, List.getElem?_append_left inside, at_]
  · rw [geometry, eq]

theorem Inv.fed (inv : h.Inv) {more : List Bytes}
    (fed : h.pipeline.channel.Fed h.published more h'.pipeline.channel)
    (encodings : ∀ e ∈ more, ∃ r : Record, e = r.encode)
    (published : h'.published = h.published ++ more)
    (drain : h'.pipeline.drain = h.pipeline.drain) (handed : h'.handed = h.handed) : h'.Inv := by
  have slots : h'.slotCount = h.slotCount := congrArg Geometry.slotCount fed.geometry
  have cursor : h'.cursor = h.cursor := congrArg Drain.cursor drain
  have floor : h'.floor = h.floor := by rw [Handover.floor, Handover.floor, cursor, drain]
  have sequences : h'.handedSequences = h.handedSequences := by
    rw [handedSequences, handedSequences, handed]
  have count : h'.ring.published = (h.published ++ more).length := fed.keeps.published
  have grown : h.ring.published ≤ h'.ring.published := by
    rw [count, inv.keeps.published, List.length_append]
    exact Nat.le_add_right _ _
  have moved : h'.ring.consumed = max h.ring.consumed (h'.ring.published - h.slotCount) := by
    rw [count]
    exact fed.consumed
  have window := inv.within.published_le
  have finds : ∀ s found, h.Finds s found → h'.Finds s found := by
    rintro s found (⟨gone, lapped⟩ | ⟨f, carries, ready⟩)
    · exact .inl ⟨gone, by omega⟩
    · exact .inr ⟨f, carries.mono fed.geometry published, ready⟩
  have floor_le := inv.floor_le
  refine ⟨?_, fed.within, ?_, ?_, ?_, ?_, ?_, ?_, ?_, ?_⟩
  · rw [published]
    exact fed.keeps
  · intro e member
    rw [published, List.mem_append] at member
    exact member.elim (inv.encodings e) (encodings e)
  · omega
  · rcases inv.gap with behind | ahead <;> omega
  · intro s lt free
    rw [cursor] at lt
    rw [sequences] at free
    have lapped := inv.lost s lt free
    omega
  · rw [sequences, cursor]
    exact inv.below
  · rw [sequences]
    exact inv.ordered
  · intro s f member
    rw [handed] at member
    exact (inv.carries s f member).mono fed.geometry published
  · have knows := inv.knows
    rw [drain]
    cases at_ : h.pipeline.drain.phase with
    | catchingUp snapshot =>
      rw [at_] at knows
      obtain ⟨lt, le⟩ := knows
      exact ⟨by omega, by omega⟩
    | reading =>
      rw [at_] at knows
      have lt : h.cursor < h.ring.published := knows
      show h'.cursor < h'.ring.published
      omega
    | releasing found | delivering found =>
      rw [at_] at knows
      obtain ⟨lt, found⟩ := knows
      exact ⟨by omega, cursor.symm ▸ finds _ _ found⟩
    | _ => trivial

/-! ### The loop -/

/-- Stamps tell sequences apart that are less than a round of the stamps from each other. -/
theorem eq_of_writtenStamp_eq {s t : Nat} (le : s ≤ t) (near : t < s + 0x8000000000000000)
    (same : writtenStamp t = writtenStamp s) : t = s := by
  have words := congrArg UInt64.toNat same
  simp only [writtenStamp, UInt64.toNat_ofNat'] at words
  omega

/-- A published sequence is in its slot, or a later one is. -/
theorem Inv.exists_held (inv : h.Inv) {s : Nat} (lt : s < h.ring.published) :
    ∃ (t : Nat) (r : Record), s ≤ t ∧ h.published[t]? = some r.encode ∧
      h.ring.slotAt s = h.ring.slotAt t ∧ h.ring.Holds t r.encode ∧
        (t = s ∨ s + h.slotCount < h.ring.published) := by
  have pos : 0 < h.slotCount := h.pipeline.channel.geometry.slotCount_pos
  have count : h.ring.published = h.published.length := inv.keeps.published
  -- the last sequence that went into the slot is so many rounds later
  obtain ⟨rounds, def_⟩ : ∃ k, k = (h.ring.published - 1 - s) / h.slotCount := ⟨_, rfl⟩
  have round := Nat.div_add_mod (h.ring.published - 1 - s) h.slotCount
  have rest := Nat.mod_lt (h.ring.published - 1 - s) pos
  rw [← def_] at round
  obtain ⟨t, later⟩ : ∃ t, t = s + h.slotCount * rounds := ⟨_, rfl⟩
  have inside : t < h.published.length := by omega
  have last : h.published.length ≤ t + h.slotCount := by omega
  obtain ⟨r, encodes⟩ := inv.encodings _ (List.getElem_mem inside)
  have index : h.pipeline.channel.geometry.index s = h.pipeline.channel.geometry.index t := by
    refine Fin.ext ?_
    rw [Geometry.index_eq_mod, Geometry.index_eq_mod, later, Nat.add_mul_mod_self_left]
  refine ⟨t, r, by omega, ?_, h.ring.slotAt_congr index, ?_, ?_⟩
  · rw [List.getElem?_eq_getElem inside, encodes]
  · rw [← encodes]
    exact inv.keeps.holds t inside last
  · rcases Nat.eq_zero_or_pos rounds with zero | more
    · left
      rw [later, zero, Nat.mul_zero, Nat.add_zero]
    · right
      have step : h.slotCount ≤ h.slotCount * rounds := Nat.le_mul_of_pos_right _ more
      omega

/-- Reading a published sequence finds it, or one with its stamp, or that it is gone. -/
theorem Inv.finds (inv : h.Inv) {s : Nat} (lt : s < h.ring.published) :
    h.Finds s (h.ring.read s h.pipeline.channel.geometry.slotBytes) := by
  obtain ⟨t, r, le, at_, slot, ⟨stamp, bytes⟩, last⟩ := inv.exists_held lt
  by_cases same : writtenStamp t = writtenStamp s
  · have held : h.ring.Holds s r.encode := by
      refine ⟨?_, ?_⟩
      · rw [slot, stamp, same]
      · rw [slot]
        exact bytes
    exact .inr ⟨_, ⟨t, le, same, r, at_, rfl⟩, Ring.read_of_holds held (Nat.le_refl _)⟩
  · refine .inl ⟨Ring.read_of_stamp_ne _ ?_, ?_⟩
    · rw [slot, stamp]
      exact same
    · rcases last with rfl | lapped
      · exact absurd rfl same
      · exact lapped

theorem Inv.enter (inv : h.Inv) {phase : DrainPhase} {unflushed : Bool}
    (floor : ({ h with pipeline := { h.pipeline with
      drain := ⟨h.cursor, unflushed, phase⟩ } } : Handover σ).floor = h.floor)
    (knows : h.Knows phase) :
    ({ h with pipeline := { h.pipeline with
      drain := ⟨h.cursor, unflushed, phase⟩ } } : Handover σ).Inv where
  keeps := inv.keeps
  within := inv.within
  encodings := inv.encodings
  floor_le := floor ▸ inv.floor_le
  gap := floor ▸ inv.gap
  lost := inv.lost
  below := inv.below
  ordered := inv.ordered
  carries := inv.carries
  knows := by cases phase <;> exact knows

theorem next_consume {now : UInt64} (quiet : h.pipeline.drain.phase.callsSink = false) :
    h.next sink (.consume now) = { h with pipeline := h.pipeline.step sink now } := by
  obtain ⟨empty, silent⟩ : h.pipeline.inHand = none ∧ h.pipeline.fed sink = [] :=
    Pipeline.quiet_of_not_callsSink quiet
  simp only [next, silent, empty, Option.map_none, Option.toList_none, List.append_nil]

/-- Moving over everything that was given up skips what is lost, and nothing else. -/
theorem Inv.catchUp (inv : h.Inv) (here : h.floor = h.cursor) {phase : DrainPhase}
    {unflushed : Bool} (floor : ({ h with pipeline := { h.pipeline with
      drain := ⟨h.ring.consumed, unflushed, phase⟩ } } : Handover σ).floor = h.ring.consumed)
    (knows : ({ h with pipeline := { h.pipeline with
      drain := ⟨h.ring.consumed, unflushed, phase⟩ } } : Handover σ).Knows phase) :
    ({ h with pipeline := { h.pipeline with
      drain := ⟨h.ring.consumed, unflushed, phase⟩ } } : Handover σ).Inv where
  keeps := inv.keeps
  within := inv.within
  encodings := inv.encodings
  floor_le := Nat.le_of_eq floor
  gap := .inl (Nat.le_of_eq floor.symm)
  lost := by
    intro s lt free
    have lt : s < h.ring.consumed := lt
    show s + h.slotCount < h.ring.published
    by_cases old : s < h.cursor
    · exact inv.lost s old free
    · rcases inv.gap with behind | ahead <;> omega
  below := by
    intro s member
    have lt := inv.below s member
    have le := inv.floor_le
    show s < h.ring.consumed
    omega
  ordered := inv.ordered
  carries := inv.carries
  knows := knows

/-- Giving a slot back raises the shared cursor to the loop's own, or leaves it where writers have
pushed it. -/
theorem Inv.release (inv : h.Inv) {found : Ring.Reading}
    (at_ : h.pipeline.drain.phase = .releasing found) :
    ({ h with
      pipeline := (h.pipeline.mapRing (·.commit (h.cursor + 1))).enter (.delivering found) } :
        Handover σ).Inv := by
  have knows := inv.knows
  rw [at_] at knows
  obtain ⟨lt, finds⟩ := knows
  have here : h.floor = h.cursor := by rw [floor, at_]
  have floor_le := inv.floor_le
  have window := inv.within.published_le
  refine ⟨inv.keeps.commit _, inv.within.commit lt, inv.encodings, ?_, ?_, inv.lost, inv.below,
    inv.ordered, inv.carries, ⟨lt, finds⟩⟩
  · show h.cursor + 1 ≤ max h.ring.consumed (h.cursor + 1)
    omega
  · show max h.ring.consumed (h.cursor + 1) ≤ h.cursor + 1 ∨
      max h.ring.consumed (h.cursor + 1) + h.slotCount ≤ h.ring.published
    rcases inv.gap with behind | ahead <;> omega

theorem Inv.deliver (inv : h.Inv) {found : Ring.Reading}
    (at_ : h.pipeline.drain.phase = .delivering found) :
    ({ h with
      pipeline := { h.pipeline with drain := ⟨h.cursor + 1, true, .polling⟩ }
      handed := h.handed ++ (h.pipeline.inHand.map fun f => (h.cursor, f)).toList } :
        Handover σ).Inv := by
  have knows := inv.knows
  rw [at_] at knows
  obtain ⟨lt, finds⟩ := knows
  have here : h.floor = h.cursor + 1 := by rw [floor, at_]
  have floor_le := inv.floor_le
  rcases finds with ⟨rfl, lapped⟩ | ⟨f, carries, rfl⟩
  · have empty : h.pipeline.inHand = none := by rw [Pipeline.inHand, at_]
    rw [empty, Option.map_none, Option.toList_none, List.append_nil]
    refine ⟨inv.keeps, inv.within, inv.encodings, here ▸ floor_le, here ▸ inv.gap, ?_, ?_,
      inv.ordered, inv.carries, trivial⟩
    · intro s below free
      by_cases last : s = h.cursor
      · rw [last]
        exact lapped
      · exact inv.lost s (Nat.lt_of_le_of_ne (Nat.le_of_lt_succ below) last) free
    · intro s member
      exact Nat.lt_succ_of_lt (inv.below s member)
  · have full : h.pipeline.inHand = some f := by
      obtain ⟨_, _, _, r, _, rfl⟩ := carries
      simp only [Pipeline.inHand, at_]
      rw [Frame.decode_encode (Geometry.length_fitted_le _ r)]
      rfl
    rw [full, Option.map_some, Option.toList_some]
    have sequences : (h.handed ++ [(h.cursor, f)]).map Prod.fst =
        h.handedSequences ++ [h.cursor] := by
      rw [List.map_append]
      rfl
    refine ⟨inv.keeps, inv.within, inv.encodings, here ▸ floor_le, here ▸ inv.gap, ?_, ?_, ?_, ?_,
      trivial⟩
    · intro s below free
      rw [handedSequences, sequences, List.mem_append, not_or, List.mem_singleton] at free
      exact inv.lost s (Nat.lt_of_le_of_ne (Nat.le_of_lt_succ below) free.2) free.1
    · intro s member
      rw [handedSequences, sequences, List.mem_append, List.mem_singleton] at member
      rcases member with old | rfl
      · exact Nat.lt_succ_of_lt (inv.below s old)
      · exact Nat.lt_succ_self _
    · rw [handedSequences, sequences, List.pairwise_append]
      refine ⟨inv.ordered, List.pairwise_singleton _ _, ?_⟩
      intro s member t last
      rw [List.mem_singleton.1 last]
      exact inv.below s member
    · intro s f' member
      rcases List.mem_append.1 member with old | new
      · exact inv.carries s f' old
      · cases List.mem_singleton.1 new
        exact carries

/-- **One access of the loop keeps the invariant.** -/
theorem Inv.consume (only : sink.OnlyPublishes) (inv : h.Inv) (now : UInt64) :
    (h.next sink (.consume now)).Inv := by
  have knows := inv.knows
  cases at_ : h.pipeline.drain.phase with
  | polling =>
    rw [next_consume (by rw [at_]; rfl)]
    simp only [Pipeline.step, at_]
    split
    · next behind => exact inv.enter (by rw [floor, floor, at_]) ⟨behind, Nat.le_refl _⟩
    · exact inv.enter (by rw [floor, floor, at_]) trivial
  | catchingUp snapshot =>
    rw [next_consume (by rw [at_]; rfl)]
    rw [at_] at knows
    obtain ⟨lt, le⟩ := knows
    have here : h.floor = h.cursor := by rw [floor, at_]
    have floor_le := inv.floor_le
    have window := inv.within.published_le
    -- the shared cursor is the greatest of the three
    have target : max (max h.cursor h.ring.consumed) (h.ring.oldestRetained snapshot) =
        h.ring.consumed := by
      rw [Ring.oldestRetained]
      omega
    simp only [Pipeline.step, at_, target]
    split
    · exact inv.catchUp here rfl trivial
    · next more =>
      exact inv.catchUp here rfl (Nat.lt_of_lt_of_le (Nat.not_le.1 more) le)
  | reading =>
    rw [next_consume (by rw [at_]; rfl)]
    rw [at_] at knows
    have lt : h.cursor < h.ring.published := knows
    simp only [Pipeline.step, at_]
    exact inv.enter (by rw [floor, floor, at_]) ⟨lt, inv.finds lt⟩
  | releasing found =>
    rw [next_consume (by rw [at_]; rfl)]
    simp only [Pipeline.step, at_]
    exact inv.release at_
  | delivering found =>
    obtain ⟨fed, drain⟩ := Pipeline.fed_deliver only inv.keeps inv.within now at_
    have given : ({ h with
        pipeline := { h.pipeline.deliver sink now found with drain := h.pipeline.drain }
        published := h.published ++ h.pipeline.fed sink } : Handover σ).Inv :=
      inv.fed fed (fun _ => Pipeline.exists_of_mem_fed only) rfl rfl rfl
    have delivered := given.deliver at_
    simp only [next, Pipeline.step, at_, drain]
    exact delivered
  | idling =>
    rw [next_consume (by rw [at_]; rfl)]
    simp only [Pipeline.step, at_]
    split
    · exact inv.enter (by rw [floor, floor, at_]) trivial
    · split
      · exact inv.enter (by rw [floor, floor, at_]) trivial
      · exact inv.enter (by rw [floor, floor, at_]) trivial
  | leaving =>
    rw [next_consume (by rw [at_]; rfl)]
    simp only [Pipeline.step, at_]
    split
    · exact inv.enter (by rw [floor, floor, at_]) trivial
    · exact inv.enter (by rw [floor, floor, at_]) trivial
  | flushing =>
    obtain ⟨fed, drain⟩ := Pipeline.fed_flush only inv.keeps inv.within now (.inl at_)
    have empty : h.pipeline.inHand = none := by rw [Pipeline.inHand, at_]
    have given : ({ h with
        pipeline := h.pipeline.flush sink now
        published := h.published ++ h.pipeline.fed sink } : Handover σ).Inv :=
      inv.fed fed (fun _ => Pipeline.exists_of_mem_fed only) rfl drain rfl
    simp only [next, Pipeline.step, at_, empty, Option.map_none, Option.toList_none,
      List.append_nil]
    exact given.enter (by rw [floor, floor, drain, at_]) trivial
  | parked =>
    rw [next_consume (by rw [at_]; rfl)]
    simp only [Pipeline.step, at_]
    exact inv.enter (by rw [floor, floor, at_]) trivial
  | closing =>
    obtain ⟨fed, drain⟩ := Pipeline.fed_flush only inv.keeps inv.within now (.inr at_)
    have empty : h.pipeline.inHand = none := by rw [Pipeline.inHand, at_]
    have given : ({ h with
        pipeline := (h.pipeline.flush sink now).mapChannel fun c => { c with finished := true }
        published := h.published ++ h.pipeline.fed sink } : Handover σ).Inv :=
      inv.fed (fed.books _ _ _ _ _) (fun _ => Pipeline.exists_of_mem_fed only) rfl drain rfl
    have same : ((h.pipeline.flush sink now).mapChannel fun c =>
        { c with finished := true }).drain.phase = .closing := by
      rw [← at_, ← drain]
      rfl
    simp only [next, Pipeline.step, at_, empty, Option.map_none, Option.toList_none,
      List.append_nil]
    exact given.enter (by rw [floor, floor, same]) trivial
  | ended panicked =>
    rw [next_consume (by rw [at_]; rfl)]
    simp only [Pipeline.step, at_]
    exact inv

/-! ### Runs -/

theorem Inv.publish (inv : h.Inv) (mode : WriterMode) (r : Record) :
    (h.next sink (.publish mode r)).Inv :=
  inv.fed (Channel.fed_publishBy inv.keeps inv.within mode r.encode)
    (fun _ member => ⟨r, List.mem_singleton.1 member⟩) rfl rfl rfl

theorem Inv.next (only : sink.OnlyPublishes) (inv : h.Inv) (event : HandoverEvent) :
    (h.next sink event).Inv := by
  cases event with
  | publish mode r => exact inv.publish mode r
  | consume now => exact inv.consume only now
  | stop =>
    exact ⟨inv.keeps, inv.within, inv.encodings, inv.floor_le, inv.gap, inv.lost, inv.below,
      inv.ordered, inv.carries, inv.knows⟩

theorem Inv.run (only : sink.OnlyPublishes) (inv : h.Inv) (events : List HandoverEvent) :
    (h.run sink events).Inv := by
  induction events generalizing h with
  | nil => exact inv
  | cons event rest ih => exact ih (inv.next only event)

theorem fed_give : ∀ (earlier : List (WriterMode × Record)) {c : Channel} {log : List Bytes},
    c.ring.Keeps log → c.ring.Within →
      c.Fed log (earlier.map (·.2.encode)) (earlier.foldl (fun c e => c.give e.1 e.2) c)
  | [], _, _, keeps, within => Channel.fed_nil keeps within
  | e :: rest, _, _, keeps, within => by
    have first := Channel.fed_publishBy keeps within e.1 e.2.encode
    exact first.trans (fed_give rest first.keeps first.within)

theorem inv_of_fed {c c' : Channel} {log : List Bytes} (fed : c.Fed [] log c')
    (fresh : c.ring.consumed = 0) (encodings : ∀ e ∈ log, ∃ r : Record, e = r.encode)
    (state : σ) : ({ pipeline := .start c' state, published := log } : Handover σ).Inv := by
  obtain ⟨geometry, -, keeps, within, consumed, -⟩ := fed
  rw [List.nil_append] at keeps consumed
  have count := keeps.published
  have slots := congrArg Geometry.slotCount geometry
  refine ⟨keeps, within, encodings, Nat.le_refl _, .inl (Nat.le_refl _), ?_, ?_, .nil, ?_, trivial⟩
  · intro s lt free
    have below : s < c'.ring.consumed := lt
    show s + c'.geometry.slotCount < c'.ring.published
    omega
  · intro s member
    cases member
  · intro s f member
    cases member

theorem inv_start (g : Geometry) (mode : WriterMode) (threshold : Severity)
    (earlier : List (WriterMode × Record)) (state : σ) :
    (start g mode threshold earlier state).Inv := by
  have fresh : (Channel.ofGeometry g mode threshold).ring.Keeps [] := Ring.keeps_empty g
  refine inv_of_fed (fed_give earlier fresh (Ring.within_empty g)) rfl ?_ state
  intro e member
  obtain ⟨given, -, rfl⟩ := List.mem_map.1 member
  exact ⟨given.2, rfl⟩

end Handover

end LogRelay
