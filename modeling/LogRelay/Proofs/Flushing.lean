/-
# When the sink is flushed

The loop keeps a flag: something was read since the last flush. A read does not set it at once, but
only after what was found was delivered, so while a record is in the loop's hands the flag may be
behind. At every other place it says what the history says (`Pipeline.Place`), and the loop
rests with the flag down and flushes for want of work with the flag up.

What was done is listed newest first, so that what was done before a mark is what stands behind it.
The list is no more than a record of where the loop went; that the sink was really called wherever
it says so is what `Diary.Genuine` says of it, since the sink is then as those calls leave it.

Key definitions: `Mark`, `owes`, `idlesOwing`, `Disciplined`, `Pipeline.Place`,
`Pipeline.Remembers`, `Logbook`, `FlushesInTime`.
Key theorems: `Pipeline.Remembers.step`, `Disciplined.flush_mem`, `Logbook.toDiary_run`,
`Logbook.flushesInTime_run`.
-/
import LogRelay.Proofs.Isolation

namespace LogRelay

/-! ### What was done -/

/-- What a consumer does, as far as flushing is concerned. -/
inductive Mark
  /-- Reads a slot, whatever it finds there. -/
  | read
  /-- Hands a record to the sink. -/
  | write (f : Frame)
  /-- Has nothing left to read, and is not told to stop. -/
  | idle
  /-- Has nothing left to read, and sees that it is told to stop. -/
  | told
  /-- Flushes for want of work. -/
  | flush
  /-- Rests. -/
  | park
  /-- Flushes for the last time. -/
  | lastFlush
  deriving DecidableEq

namespace Mark

def isFlush : Mark → Bool
  | flush | lastFlush => true
  | read | write _ | idle | told | park => false

/-- The call of the sink that is made. -/
def call? : Mark → Option SinkCall
  | write f => some (.write f)
  | flush | lastFlush => some .flush
  | read | idle | told | park => none

end Mark

/-- Whether something was read since the last flush. -/
def owes : List Mark → Bool
  | [] => false
  | .read :: _ => true
  | .flush :: _ | .lastFlush :: _ => false
  | .write _ :: earlier | .idle :: earlier | .told :: earlier | .park :: earlier => owes earlier

/-- How often nothing was left to read when something was read since the last flush. -/
def idlesOwing : List Mark → Nat
  | [] => 0
  | .idle :: earlier => idlesOwing earlier + (owes earlier).toNat
  | .read :: earlier | .write _ :: earlier | .told :: earlier | .flush :: earlier
  | .park :: earlier | .lastFlush :: earlier => idlesOwing earlier

/-- Whoever comes to owe has read. -/
theorem read_mem_of_owes {later earlier : List Mark} (before : owes earlier = false)
    (after : owes (later ++ earlier) = true) : .read ∈ later := by
  induction later with
  | nil => exact absurd (before.symm.trans after) Bool.false_ne_true
  | cons m later ih =>
    cases m with
    | read => exact List.mem_cons_self
    | flush | lastFlush => cases after
    | write f | idle | told | park => exact List.mem_cons_of_mem _ (ih after)

/-- Whoever owes no longer has flushed. -/
theorem isFlush_mem_of_not_owes {later earlier : List Mark} (before : owes earlier = true)
    (after : owes (later ++ earlier) = false) : ∃ m ∈ later, m.isFlush = true := by
  induction later with
  | nil => exact absurd (after.symm.trans before) Bool.false_ne_true
  | cons m later ih =>
    cases m with
    | read => cases after
    | flush | lastFlush => exact ⟨_, List.mem_cons_self, rfl⟩
    | write f | idle | told | park =>
      obtain ⟨m, member, flushes⟩ := ih after
      exact ⟨m, List.mem_cons_of_mem _ member, flushes⟩

/-! ### The discipline -/

/-- What may be done after something else was done. -/
def Mark.Allowed (earlier : List Mark) : Mark → Prop
  | .park => owes earlier = false
  | .flush => owes earlier = true ∧ .told ∉ earlier
  | .write _ => owes earlier = true
  | .read | .idle | .told | .lastFlush => True

/-- All that was done was allowed, and nothing came after the last flush. -/
def Disciplined : List Mark → Prop
  | [] => True
  | m :: earlier => m.Allowed earlier ∧ .lastFlush ∉ earlier ∧ Disciplined earlier

namespace Disciplined

variable {m : Mark} {later since earlier : List Mark}

theorem behind (disciplined : Disciplined (later ++ earlier)) : Disciplined earlier := by
  induction later with
  | nil => exact disciplined
  | cons m later ih => exact ih disciplined.2.2

theorem allowed (disciplined : Disciplined (later ++ m :: earlier)) : m.Allowed earlier :=
  disciplined.behind.1

/-- If nothing is owed any more when something more is done, it was flushed for want of work. -/
theorem flush_mem (disciplined : Disciplined (m :: (since ++ earlier)))
    (before : owes earlier = true) (after : owes (since ++ earlier) = false) : .flush ∈ since := by
  obtain ⟨n, member, flushes⟩ := isFlush_mem_of_not_owes before after
  cases n with
  | flush => exact member
  | lastFlush => exact absurd (List.mem_append_left _ member) disciplined.2.1
  | read | write f | idle | told | park => cases flushes

end Disciplined

namespace Pipeline

variable {σ : Type}

/-- What the consumer does in its next step. -/
def mark? (p : Pipeline σ) : Option Mark :=
  match p.drain.phase with
  | .reading => some .read
  | .delivering _ => p.inHand.map .write
  | .idling => some (if p.channel.running then .idle else .told)
  | .flushing => some .flush
  | .parked => some .park
  | .closing => some .lastFlush
  | .polling | .catchingUp _ | .releasing _ | .leaving | .ended _ => none

/-- Where the loop is when it does something. -/
def MadeAt (p : Pipeline σ) : Mark → Prop
  | .read => p.drain.phase = .reading
  | .write _ => ∃ found, p.drain.phase = .delivering found
  | .idle => p.drain.phase = .idling ∧ p.channel.running = true
  | .told => p.drain.phase = .idling ∧ p.channel.running = false
  | .flush => p.drain.phase = .flushing
  | .park => p.drain.phase = .parked
  | .lastFlush => p.drain.phase = .closing

theorem madeAt_of_mark? (p : Pipeline σ) {m : Mark} (mark : p.mark? = some m) : p.MadeAt m := by
  unfold mark? at mark
  cases at_ : p.drain.phase with
  | reading | flushing | parked | closing =>
    rw [at_] at mark
    cases mark
    exact at_
  | idling =>
    rw [at_] at mark
    cases running : p.channel.running with
    | true | false =>
      rw [running] at mark
      cases mark
      exact ⟨at_, running⟩
  | delivering found =>
    rw [at_] at mark
    obtain ⟨f, -, rfl⟩ := Option.map_eq_some_iff.1 mark
    exact ⟨found, at_⟩
  | polling | catchingUp published | releasing found | leaving | ended panicked =>
    rw [at_] at mark
    cases mark

theorem mark?_of_isEnded {p : Pipeline σ} (ended : p.isEnded = true) : p.mark? = none := by
  unfold isEnded at ended
  split at ended
  · next at_ => rw [mark?, at_]
  · cases ended

/-- The calls of the sink are among the marks. -/
theorem calls?_eq_mark? (p : Pipeline σ) : p.calls? = p.mark?.bind Mark.call? := by
  unfold calls? mark?
  cases at_ : p.drain.phase with
  | delivering found =>
    dsimp only
    rw [inHand_of_delivering at_]
    cases found.frame? <;> rfl
  | idling =>
    dsimp only
    split <;> rfl
  | _ => rfl

/-! ### The loop and its history -/

/-- What was done so far, at each place of the loop. -/
def Place (d : Drain) (marks : List Mark) : Prop :=
  match d.phase with
  | .polling | .catchingUp _ | .reading | .idling =>
    owes marks = d.unflushed ∧ marks.count .flush = idlesOwing marks
  | .releasing _ | .delivering _ => owes marks = true ∧ marks.count .flush = idlesOwing marks
  | .leaving | .closing =>
    (owes marks = d.unflushed ∧ marks.count .flush = idlesOwing marks) ∧ .told ∈ marks
  | .flushing =>
    (owes marks = true ∧ marks.count .flush + 1 = idlesOwing marks) ∧ .told ∉ marks
  | .parked =>
    (owes marks = false ∧ marks.count .flush = idlesOwing marks) ∧ d.unflushed = false
  | .ended _ =>
    ∃ earlier, marks = .lastFlush :: earlier ∧ earlier.count .flush = idlesOwing earlier ∧
      .told ∈ earlier

/-- **The invariant.** The loop knows what it owes. -/
structure Remembers (p : Pipeline σ) (marks : List Mark) : Prop where
  disciplined : Disciplined marks
  place : Place p.drain marks
  told : .told ∈ marks → p.channel.running = false
  going : p.isEnded = false → .lastFlush ∉ marks

theorem drain_step_of_callsSink (sink : Sink σ) {p : Pipeline σ}
    (calls : p.drain.phase.callsSink = true) (now : UInt64) :
    (p.step sink now).drain = p.drainAfter sink := by
  obtain ⟨_, _, _, stepped⟩ := exists_step_eq sink calls now
  rw [stepped]

variable {p : Pipeline σ} {marks : List Mark}

theorem Remembers.allowed (remembers : p.Remembers marks) {m : Mark} (mark : p.mark? = some m) :
    m.Allowed marks := by
  have place := remembers.place
  have made := p.madeAt_of_mark? mark
  unfold Place at place
  cases m with
  | read | idle | told | lastFlush => trivial
  | write f =>
    obtain ⟨found, at_⟩ := made
    rw [at_] at place
    exact place.1
  | flush =>
    rw [made] at place
    exact ⟨place.1.1, place.2⟩
  | park =>
    rw [made] at place
    exact place.1.1

theorem Remembers.disciplined_step (remembers : p.Remembers marks) :
    Disciplined (p.mark?.toList ++ marks) := by
  cases mark : p.mark? with
  | none => exact remembers.disciplined
  | some m =>
    refine ⟨remembers.allowed mark, remembers.going ?_, remembers.disciplined⟩
    rw [← Bool.not_eq_true]
    intro ended
    cases mark.symm.trans (mark?_of_isEnded ended)

theorem Remembers.place_step (remembers : p.Remembers marks) (sink : Sink σ) (now : UInt64) :
    Place (p.step sink now).drain (p.mark?.toList ++ marks) := by
  have place := remembers.place
  unfold Place at place
  cases at_ : p.drain.phase with
  | polling | catchingUp published =>
    rw [at_] at place
    simp only [step, mark?, at_]
    split
    · exact place
    · exact place
  | reading =>
    rw [at_] at place
    simp only [step, mark?, at_]
    exact ⟨rfl, place.2⟩
  | releasing found =>
    rw [at_] at place
    simp only [step, mark?, at_]
    exact place
  | delivering found =>
    rw [at_] at place
    rw [drain_step_of_callsSink sink (by rw [at_]; rfl), drainAfter, mark?, at_]
    cases p.inHand with
    | none => exact place
    | some f => exact place
  | idling =>
    rw [at_] at place
    obtain ⟨owed, count⟩ := place
    simp only [step, mark?, at_]
    cases running : p.channel.running with
    | false => exact ⟨⟨owed, count⟩, List.mem_cons_self⟩
    | true =>
      -- what was seen once stays so, so it was not told before
      have unaware : .told ∉ .idle :: marks := by
        intro told
        cases told with
        | tail _ told => exact Bool.false_ne_true ((remembers.told told).symm.trans running)
      cases unflushed : p.drain.unflushed with
      | true =>
        rw [unflushed] at owed
        refine ⟨⟨owed, ?_⟩, unaware⟩
        show marks.count .flush + 1 = idlesOwing marks + (owes marks).toNat
        rw [owed, count]
        rfl
      | false =>
        rw [unflushed] at owed
        refine ⟨⟨owed, ?_⟩, unflushed⟩
        show marks.count .flush = idlesOwing marks + (owes marks).toNat
        rw [owed, count]
        rfl
  | leaving =>
    rw [at_] at place
    simp only [step, mark?, at_]
    split
    · exact place
    · exact place.1
  | flushing =>
    rw [at_] at place
    rw [drain_step_of_callsSink sink (by rw [at_]; rfl), drainAfter, mark?, at_]
    refine ⟨⟨rfl, ?_⟩, rfl⟩
    exact (List.count_cons_self).trans place.1.2
  | parked =>
    rw [at_] at place
    simp only [step, mark?, at_]
    exact ⟨place.1.1.trans place.2.symm, place.1.2⟩
  | closing =>
    rw [at_] at place
    rw [drain_step_of_callsSink sink (by rw [at_]; rfl), drainAfter, mark?, at_]
    exact ⟨marks, rfl, place.1.2, place.2⟩
  | ended panicked =>
    rw [p.step_ended sink now (by rw [isEnded, at_]), mark?, at_]
    exact remembers.place

theorem Remembers.step (remembers : p.Remembers marks) (sink : Sink σ) (now : UInt64) :
    (p.step sink now).Remembers (p.mark?.toList ++ marks) where
  disciplined := remembers.disciplined_step
  place := remembers.place_step sink now
  told := by
    rw [(p.step_spares sink now).2.2.1, List.mem_append, Option.mem_toList]
    rintro (mark | before)
    · exact (p.madeAt_of_mark? mark).2
    · exact remembers.told before
  going := by
    intro going
    rw [List.mem_append, Option.mem_toList]
    rintro (mark | before)
    · have closing : p.drain.phase = .closing := p.madeAt_of_mark? mark
      simp only [Pipeline.step, closing, isEnded, enter] at going
      cases going
    · refine remembers.going ?_ before
      rw [← Bool.not_eq_true]
      intro ended
      rw [p.step_ended sink now ended, ended] at going
      cases going

end Pipeline

/-! ### A run and its history -/

/-- A diary with a list of what was done, newest first. -/
structure Logbook (σ : Type) extends Diary σ where
  marks : List Mark := []

namespace Logbook

variable {σ : Type} {sink : Sink σ} {b : Logbook σ}

/-- The logbook after one more occurrence. -/
def next (sink : Sink σ) (clock : Nat → UInt64) (b : Logbook σ) (event : Occurrence) :
    Logbook σ where
  toDiary := b.toDiary.next sink clock event
  marks :=
    match event with
    | .publish _ _ | .stop => b.marks
    | .access => b.pipeline.mark?.toList ++ b.marks

/-- The logbook after some more occurrences. -/
def run (sink : Sink σ) (clock : Nat → UInt64) (b : Logbook σ) (events : List Occurrence) :
    Logbook σ :=
  events.foldl (next sink clock) b

/-- The logbook of a consumer that begins where the last one stopped. -/
def start (c : Channel) (s : σ) : Logbook σ := { pipeline := .start c s }

/-- The loop remembers what was done, and the diary has the calls of the sink among it. -/
structure Inv (b : Logbook σ) : Prop where
  remembers : b.pipeline.Remembers b.marks
  asked : b.asked.filterMap id = (b.marks.filterMap Mark.call?).reverse

theorem inv_start (c : Channel) (s : σ) : (start c s).Inv where
  remembers := {
    disciplined := trivial
    place := ⟨rfl, rfl⟩
    told := by rintro ⟨⟩
    going := by rintro _ ⟨⟩ }
  asked := rfl

/-- One more line of the diary is one more mark, if the sink is called. -/
theorem reverse_filterMap_concat (mark? : Option Mark) (marks : List Mark) :
    ((mark?.toList ++ marks).filterMap Mark.call?).reverse =
      (marks.filterMap Mark.call?).reverse ++ (mark?.bind Mark.call?).toList := by
  rw [List.filterMap_append, List.reverse_append]
  congr 1
  cases mark? with
  | none => rfl
  | some m => cases m <;> rfl

theorem Inv.next (inv : b.Inv) (sink : Sink σ) (clock : Nat → UInt64) (event : Occurrence) :
    (b.next sink clock event).Inv := by
  obtain ⟨⟨disciplined, place, told, going⟩, asked⟩ := inv
  cases event with
  | publish mode encoded =>
    refine ⟨⟨disciplined, place, told, going⟩, ?_⟩
    simp only [Logbook.next, Diary.asked, Diary.next, List.map_append, List.filterMap_append]
    exact (List.append_nil _).trans asked
  | stop =>
    refine ⟨⟨disciplined, place, fun _ => rfl, going⟩, ?_⟩
    simp only [Logbook.next, Diary.asked, Diary.next, List.map_append, List.filterMap_append]
    exact (List.append_nil _).trans asked
  | access =>
    refine ⟨Pipeline.Remembers.step ⟨disciplined, place, told, going⟩ _ _, ?_⟩
    refine Eq.trans ?_ (reverse_filterMap_concat _ _).symm
    rw [← asked, ← Pipeline.calls?_eq_mark?]
    simp only [Logbook.next, Diary.asked, Diary.next, List.map_append, List.filterMap_append,
      List.map_cons, List.map_nil, Pipeline.map_fst_answer?]
    cases b.pipeline.calls? <;> rfl

theorem Inv.run (sink : Sink σ) (clock : Nat → UInt64) (events : List Occurrence)
    {b : Logbook σ} (inv : b.Inv) : (b.run sink clock events).Inv := by
  induction events generalizing b with
  | nil => exact inv
  | cons event rest ih => exact ih (inv.next sink clock event)

theorem toDiary_run (sink : Sink σ) (clock : Nat → UInt64) (events : List Occurrence)
    (b : Logbook σ) : (b.run sink clock events).toDiary = b.toDiary.run sink clock events := by
  induction events generalizing b with
  | nil => rfl
  | cons event rest ih => exact ih (b.next sink clock event)

end Logbook

/-- How a run ends. -/
structure EndsFlushed (marks : List Mark) : Prop where
  /-- The last flush is one, and nothing comes after it; before it the loop saw that it was told to
  stop. -/
  last : ∃ earlier, marks = .lastFlush :: earlier ∧ .lastFlush ∉ earlier ∧ .told ∈ earlier
  /-- Since it saw that, it was the only one. -/
  told : ∀ later before, marks = later ++ .told :: before → later.countP Mark.isFlush = 1
  /-- Since the last slot was read it came once, behind one for want of work at the most. -/
  read : ∀ since before, marks = since ++ .read :: before → .read ∉ since →
    since.count .lastFlush = 1 ∧ since.count .flush ≤ 1
  /-- Whatever was handed to the sink was flushed. -/
  written : ∀ since before f, marks = since ++ .write f :: before → .lastFlush ∈ since
  /-- There is one more flush than times that the loop went idle and owed one. -/
  count : marks.countP Mark.isFlush = 1 + idlesOwing marks

/-- When a loop flushes a sink that began in state `s`. All lists have the newest first. -/
structure FlushesInTime {σ : Type} (sink : Sink σ) (s : σ) (b : Logbook σ) : Prop where
  /-- What is listed are the calls of the sink, -/
  calls_eq : b.asked.filterMap id = (b.marks.filterMap Mark.call?).reverse
  /-- and they were made: the sink is as they have made it, and so are its answers. -/
  genuine : b.Genuine sink s
  /-- When the loop rests, it flushed since it read the last slot. -/
  parked : b.pipeline.drain.phase = .parked →
    ∀ since before, b.marks = since ++ .read :: before → .flush ∈ since
  park_read : ∀ later since before,
    b.marks = later ++ .park :: (since ++ .read :: before) → .flush ∈ since
  /-- So nothing that was handed to the sink is left unflushed. -/
  park_write : ∀ later since before f,
    b.marks = later ++ .park :: (since ++ .write f :: before) → .flush ∈ since
  /-- Between two flushes for want of work a slot was read. -/
  apart : ∀ later since before,
    b.marks = later ++ .flush :: (since ++ .flush :: before) → .read ∈ since
  /-- Once the loop saw that it is told to stop, it does not flush for want of work. -/
  told : ∀ later before, b.marks = later ++ .told :: before → .flush ∉ later
  ended : b.pipeline.isEnded = true → EndsFlushed b.marks

namespace Disciplined

variable {marks : List Mark}

theorem flush_not_mem_of_told (disciplined : Disciplined marks) {later before : List Mark}
    (split : marks = later ++ .told :: before) : .flush ∉ later := by
  intro member
  obtain ⟨newer, older, rfl⟩ := List.append_of_mem member
  rw [split, List.append_assoc, List.cons_append] at disciplined
  exact disciplined.allowed.2 (List.mem_append_right _ List.mem_cons_self)

/-- Before the last one all flushes are for want of work. -/
theorem countP_isFlush {earlier : List Mark} (fresh : .lastFlush ∉ earlier) :
    earlier.countP Mark.isFlush = earlier.count .flush := by
  rw [List.count_eq_countP]
  apply List.countP_congr
  intro m member
  cases m with
  | lastFlush => exact absurd member fresh
  | read | write f | idle | told | flush | park => exact Iff.rfl

theorem count_flush_le {since earlier : List Mark} (disciplined : Disciplined (since ++ earlier))
    (unread : .read ∉ since) : since.count .flush + (owes (since ++ earlier)).toNat ≤ 1 := by
  induction since with
  | nil =>
    rw [List.count_nil, Nat.zero_add]
    exact Bool.toNat_le _
  | cons m since ih =>
    have fewer := ih disciplined.2.2 fun h => unread (List.mem_cons_of_mem _ h)
    cases m with
    | read => exact absurd List.mem_cons_self unread
    | flush =>
      have owed : owes (since ++ earlier) = true := disciplined.1.1
      rw [owed] at fewer
      rw [List.count_cons_self]
      exact fewer
    | lastFlush =>
      rw [List.count_cons_of_ne (by rintro ⟨⟩)]
      exact Nat.le_trans (Nat.le_add_right _ _) fewer
    | write f | idle | told | park =>
      rw [List.count_cons_of_ne (by rintro ⟨⟩)]
      exact fewer

theorem endsFlushed (disciplined : Disciplined (.lastFlush :: marks))
    (count : marks.count .flush = idlesOwing marks) (told : .told ∈ marks) :
    EndsFlushed (.lastFlush :: marks) := by
  have fresh : .lastFlush ∉ marks := disciplined.2.1
  refine ⟨⟨marks, rfl, fresh, told⟩, ?_, ?_, ?_, ?_⟩
  · intro later before split
    have idle := disciplined.flush_not_mem_of_told split
    cases later with
    | nil => cases split
    | cons m later =>
      obtain ⟨rfl, rfl⟩ := List.cons.inj split
      have rest : later.countP Mark.isFlush = 0 := by
        rw [countP_isFlush fun h => fresh (List.mem_append_left _ h)]
        exact List.count_eq_zero_of_not_mem fun h => idle (List.mem_cons_of_mem _ h)
      rw [List.countP_cons_of_pos rfl, rest]
  · intro since before split unread
    cases since with
    | nil => cases split
    | cons m since =>
      obtain ⟨rfl, rfl⟩ := List.cons.inj split
      refine ⟨?_, Nat.le_trans (Nat.le_add_right _ _) (disciplined.count_flush_le unread)⟩
      rw [List.count_cons_self,
        List.count_eq_zero_of_not_mem fun h => fresh (List.mem_append_left _ h)]
  · intro since before f split
    cases since with
    | nil => cases split
    | cons m since =>
      obtain ⟨rfl, -⟩ := List.cons.inj split
      exact List.mem_cons_self
  · calc
      (Mark.lastFlush :: marks).countP Mark.isFlush = marks.countP Mark.isFlush + 1 :=
        List.countP_cons_of_pos rfl
      _ = 1 + idlesOwing marks := by rw [countP_isFlush fresh, count, Nat.add_comm]

end Disciplined

namespace Logbook

variable {σ : Type} {b : Logbook σ}

theorem Inv.flushesInTime {sink : Sink σ} {s : σ} (inv : b.Inv) (genuine : b.Genuine sink s) :
    FlushesInTime sink s b := by
  have next := inv.remembers.disciplined_step
  obtain ⟨⟨disciplined, place, -, -⟩, asked⟩ := inv
  unfold Pipeline.Place at place
  refine ⟨asked, genuine, ?_, ?_, ?_, ?_, ?_, ?_⟩
  · -- a loop that rests is about to make a mark of it
    intro at_ since before split
    have mark : b.pipeline.mark? = some .park := by rw [Pipeline.mark?, at_]
    rw [mark, split] at next
    have rests : Disciplined (.park :: (since ++ .read :: before)) := next
    exact rests.flush_mem rfl rests.1
  · intro later since before split
    rw [split] at disciplined
    exact disciplined.behind.flush_mem rfl disciplined.allowed
  · intro later since before f split
    rw [split] at disciplined
    have handed : Mark.Allowed before (.write f) := disciplined.behind.2.2.allowed
    exact disciplined.behind.flush_mem handed disciplined.allowed
  · intro later since before split
    rw [split] at disciplined
    exact read_mem_of_owes rfl disciplined.allowed.1
  · exact fun later before split => disciplined.flush_not_mem_of_told split
  · intro ended
    unfold Pipeline.isEnded at ended
    split at ended
    · next at_ =>
      rw [at_] at place
      obtain ⟨earlier, marks, count, told⟩ := place
      rw [marks] at disciplined ⊢
      exact disciplined.endsFlushed count told
    · cases ended

/-- **The sink is flushed in time.** Whatever a channel holds and whatever its sink answers,
whenever anything is published and whenever the consumer is told to stop: before it rests it has
flushed what it read, it does not flush twice for the same, and it flushes once more at its end;
and each of these flushes is a call that the sink's state is the outcome of. -/
theorem flushesInTime_run (sink : Sink σ) (clock : Nat → UInt64) (c : Channel) (s : σ)
    (events : List Occurrence) : FlushesInTime sink s ((start c s).run sink clock events) := by
  have inv := (inv_start c s).run sink clock events
  have started : (start c s).Genuine sink s := ⟨rfl, rfl⟩
  have genuine := started.run clock events
  rw [← toDiary_run] at genuine
  exact inv.flushesInTime genuine

/-- Told to stop while it rests, the loop still reads what came meanwhile, and then flushes just
once. -/
example : (((start (.ofGeometry .twoSlots .claimed .trace) ()).run Census.accepting (fun _ => 0)
      Diary.bumpyNight).marks.reverse.filter fun m => m.isFlush || m.call?.isNone) =
    [.read, .read, .read, .idle, .flush, .park, .told, .read, .read, .told, .lastFlush] := by
  decide

end Logbook

end LogRelay
