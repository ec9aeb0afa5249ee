/-
# Which count a record is in

A census lists the records that writers gave up, each by its sequence, and those that the consumer
took, each with its fate, while whole records are published between any two accesses of the
consumer's loop. Both lists are in the order of the sequences and so name no record twice, and the
channel's counts are their lengths.

A record can be in both. Between the moment the loop chooses a record and the moment it gives its
slot back, a writer that finds the ring full gives up that very record: it is counted as a loss, and
it is delivered, or found undecodable, or found gone, and counted once more. The census calls it
contested. These are the only records that are counted twice: a loss of an earlier record is one
that the loop skips, and a loss of a later one is one that it never gets to. A record that is found
to be gone is always contested.

Key definitions: `Census`, `Census.next`, `Census.run`, `Census.Attributed`, `Census.Inv`.
Key theorems: `Census.Inv.push`, `Census.Inv.consume`, `Census.attributed_run`,
`Census.counted_twice`.
-/
import LogRelay.Proofs.Accounting

namespace LogRelay

/-- The counts of some fates. -/
def Tally.ofFates (fates : List Fate) : Tally where
  delivered := fates.count .delivered
  sinkFailures := fates.count .sinkFailed
  decodeFailures := fates.count .undecodable
  skipped := fates.count .overwritten

theorem Tally.ofFates_concat (fates : List Fate) (fate : Fate) :
    ofFates (fates ++ [fate]) = (ofFates fates).enter fate := by
  cases fate <;> simp [ofFates, enter, List.count_append]

/-! ### A census -/

/-- A pipeline with the records that its counts are of. -/
structure Census (σ : Type) where
  pipeline : Pipeline σ
  /-- The records that writers gave up. -/
  givenUp : List Nat := []
  /-- The records that the consumer took, with what became of them. -/
  counted : List (Nat × Fate) := []
  /-- The records that writers gave up while the loop was reading them. -/
  contested : List Nat := []

/-- What may happen to a pipeline into which anything is published. -/
inductive CensusEvent
  /-- A writer of a mode publishes some bytes. -/
  | publish (mode : WriterMode) (encoded : Bytes)
  /-- The consumer makes its next access, at a clock reading. -/
  | consume (now : UInt64)
  /-- The consumer is told to stop. -/
  | stop

/-- The sequences that the shared cursor is moved over between two moments of a pipeline. -/
def Pipeline.passed {σ : Type} (p q : Pipeline σ) : List Nat :=
  List.range' p.channel.ring.consumed (q.channel.ring.consumed - p.channel.ring.consumed)

namespace Census

variable {σ : Type}

/-- A consumer on an empty ring. -/
def start (g : Geometry) (mode : WriterMode) (threshold : Severity) (state : σ) : Census σ where
  pipeline := .start (Channel.ofGeometry g mode threshold) state

/-- The census after publishing has led to `q`. -/
def push (c : Census σ) (q : Pipeline σ) : Census σ where
  pipeline := q
  givenUp := c.givenUp ++ c.pipeline.passed q
  counted := c.counted
  contested := c.contested ++ c.pipeline.chosen?.toList.filter (· ∈ c.pipeline.passed q)

/-- The census after the consumer's next access. All that the shared cursor is moved over is given
up, unless the loop itself moves it. -/
def consume (sink : Sink σ) (c : Census σ) (now : UInt64) : Census σ :=
  let after := c.pipeline.step sink now
  match c.pipeline.drain.phase with
  | .releasing _ => { c with pipeline := after }
  | _ =>
    { c.push after with
      counted := c.counted ++
        ((c.pipeline.fate? sink).map fun fate => (c.pipeline.drain.cursor, fate)).toList }

/-- The census after one more event. -/
def next (sink : Sink σ) (c : Census σ) : CensusEvent → Census σ
  | .publish mode encoded => c.push <| c.pipeline.mapChannel fun channel =>
    { channel with ring := (channel.ring.publishBy mode encoded).2 }
  | .consume now => c.consume sink now
  | .stop => { c with pipeline := c.pipeline.stop }

/-- The census after some more events. -/
def run (sink : Sink σ) (c : Census σ) (events : List CensusEvent) : Census σ :=
  events.foldl (next sink) c

/-- The counts of the channel. -/
abbrev stats (c : Census σ) : Stats := c.pipeline.channel.stats

/-- The records that the consumer counted. -/
def countedSequences (c : Census σ) : List Nat := c.counted.map Prod.fst

/-- Everything that was published is behind the loop, and nothing is in its hands. -/
def Drained (c : Census σ) : Prop :=
  c.pipeline.isBusy = false ∧ c.pipeline.channel.ring.published ≤ c.pipeline.drain.cursor

/-- What the counts are of. -/
structure Attributed (c : Census σ) : Prop where
  /-- The losses are the records that writers gave up, each of them once. -/
  overflowed : c.stats.overflowed = c.givenUp.length
  givenUp_ordered : c.givenUp.Pairwise (· < ·)
  /-- The other counts are of the records that the consumer took, each of them once. -/
  tally : c.pipeline.channel.tally = Tally.ofFates (c.counted.map Prod.snd)
  counted_ordered : c.countedSequences.Pairwise (· < ·)
  /-- What the consumer counted is a loss as well exactly if it is contested. -/
  twice : ∀ s ∈ c.countedSequences, s ∈ c.givenUp ↔ s ∈ c.contested
  /-- All that was found to be gone is contested. -/
  overwritten : ∀ s, (s, Fate.overwritten) ∈ c.counted → s ∈ c.contested
  contested_ordered : c.contested.Pairwise (· < ·)
  /-- In the end every record is counted, and the contested ones are counted twice. -/
  complete : c.Drained →
    (∀ s < c.pipeline.channel.ring.published, s ∈ c.givenUp ∨ s ∈ c.countedSequences) ∧
    (∀ s ∈ c.contested, s ∈ c.givenUp ∧ s ∈ c.countedSequences) ∧
    c.stats.published + c.contested.length =
      c.stats.delivered + c.stats.sinkFailures + c.stats.decodeFailures + c.stats.skipped +
        c.stats.overflowed

/-! ### The invariant -/

/-- The records that the loop gave back, and so counts or has in its hands. -/
def taken (c : Census σ) : List Nat :=
  match c.pipeline.drain.phase with
  | .delivering _ => c.countedSequences ++ [c.pipeline.drain.cursor]
  | _ => c.countedSequences

/-- **The invariant.** -/
structure Inv (c : Census σ) : Prop where
  accounts : ∃ log, c.pipeline.Accounts log c.contested.length
  overflowed : c.pipeline.channel.ring.overflowed = c.givenUp.length
  givenUp_lt : ∀ s ∈ c.givenUp, s < c.pipeline.channel.ring.consumed
  givenUp_ordered : c.givenUp.Pairwise (· < ·)
  tally : c.pipeline.channel.tally = Tally.ofFates (c.counted.map Prod.snd)
  taken_lt : ∀ s ∈ c.taken, s < c.pipeline.floor
  taken_ordered : c.taken.Pairwise (· < ·)
  /-- Below the shared cursor everything was given up or given back. -/
  covered : ∀ s < c.pipeline.channel.ring.consumed, s ∈ c.givenUp ∨ s ∈ c.taken
  contested_givenUp : ∀ s ∈ c.contested, s ∈ c.givenUp
  contested_ordered : c.contested.Pairwise (· < ·)
  /-- What is contested is busy or was taken, and so it is if it was given up. -/
  contested_open : ∀ s ∈ c.contested, s ∈ c.taken ∨ c.pipeline.chosen? = some s
  contested_of_taken : ∀ s ∈ c.taken, s ∈ c.givenUp → s ∈ c.contested
  contested_of_chosen : ∀ s, c.pipeline.chosen? = some s →
    s < c.pipeline.channel.ring.consumed → s ∈ c.contested
  contested_of_gone : c.pipeline.drain.phase = .delivering .overwritten →
    c.pipeline.drain.cursor ∈ c.contested
  contested_of_overwritten : ∀ s, (s, Fate.overwritten) ∈ c.counted → s ∈ c.contested

variable {c : Census σ} {sink : Sink σ}

theorem mem_passed {p q : Pipeline σ} {s : Nat} :
    s ∈ p.passed q ↔ p.channel.ring.consumed ≤ s ∧ s < q.channel.ring.consumed := by
  rw [Pipeline.passed, List.mem_range'_1]
  omega

/-- The contested record, if there is one, is the one that publishing adds to the overlap. -/
theorem length_filter_passed {p q : Pipeline σ} (drain : q.drain = p.drain) :
    (p.chosen?.toList.filter (· ∈ p.passed q)).length = q.held - p.held := by
  unfold Pipeline.chosen? Pipeline.held
  rw [drain]
  cases at_ : p.drain.phase with
  | reading | releasing found =>
    by_cases lost : p.drain.cursor ∈ p.passed q
    · have bounds := mem_passed.1 lost
      have before : ¬ p.drain.cursor < p.channel.ring.consumed := by omega
      simp only [Option.toList_some, List.filter_cons, List.filter_nil, lost, decide_true, if_true,
        if_pos bounds.2, if_neg before, List.length_singleton]
    · have outside := mt mem_passed.2 lost
      simp only [Option.toList_some, List.filter_cons, List.filter_nil, lost, decide_false,
        Bool.false_eq_true, if_false, List.length_nil]
      split <;> split <;> omega
  | _ => rfl

/-- **Publishing keeps the invariant**, whoever publishes. -/
theorem Inv.push (inv : c.Inv) {log more : List Bytes} {q : Pipeline σ}
    (accounts : c.pipeline.Accounts log c.contested.length)
    (fed : c.pipeline.channel.Fed log more q.channel) (drain : q.drain = c.pipeline.drain)
    (tally : q.channel.tally = c.pipeline.channel.tally) : (c.push q).Inv := by
  have moved := fed.consumed_le
  have losses := fed.overflowed
  have floor_le := accounts.floor_le
  have taken : (c.push q).taken = c.taken := by
    unfold Census.taken
    simp only [Census.push, drain, countedSequences]
  have chosen : q.chosen? = c.pipeline.chosen? := by
    rw [Pipeline.chosen?, Pipeline.chosen?, drain]
  have floor : q.floor = c.pipeline.floor := by rw [Pipeline.floor, Pipeline.floor, drain]
  have new : ∀ s, s ∈ c.pipeline.chosen?.toList.filter (· ∈ c.pipeline.passed q) ↔
      c.pipeline.chosen? = some s ∧ c.pipeline.channel.ring.consumed ≤ s ∧
        s < q.channel.ring.consumed := by
    intro s
    rw [List.mem_filter, Option.mem_toList, decide_eq_true_iff, mem_passed]
  refine ⟨⟨log ++ more, ?_⟩, ?_, ?_, ?_, ?_, ?_, ?_, ?_, ?_, ?_, ?_, ?_, ?_, ?_, ?_⟩
  · show q.Accounts _ (c.contested ++ _).length
    rw [List.length_append, length_filter_passed drain]
    exact accounts.fed fed drain tally
  · have before := inv.overflowed
    show q.channel.ring.overflowed = (c.givenUp ++ List.range' _ _).length
    rw [List.length_append, List.length_range']
    omega
  · intro s member
    rcases List.mem_append.1 member with old | lost
    · exact Nat.lt_of_lt_of_le (inv.givenUp_lt s old) moved
    · exact (mem_passed.1 lost).2
  · refine List.pairwise_append.2 ⟨inv.givenUp_ordered, List.pairwise_lt_range', ?_⟩
    intro s old t lost
    exact Nat.lt_of_lt_of_le (inv.givenUp_lt s old) (mem_passed.1 lost).1
  · exact tally.trans inv.tally
  · rw [taken]
    exact floor ▸ inv.taken_lt
  · rw [taken]
    exact inv.taken_ordered
  · intro s lt
    rw [taken]
    by_cases old : s < c.pipeline.channel.ring.consumed
    · exact (inv.covered s old).imp_left (List.mem_append_left _)
    · exact .inl (List.mem_append_right _ (mem_passed.2 ⟨Nat.not_lt.1 old, lt⟩))
  · intro s member
    rcases List.mem_append.1 member with old | lost
    · exact List.mem_append_left _ (inv.contested_givenUp s old)
    · exact List.mem_append_right _ (mem_passed.2 ((new s).1 lost).2)
  · refine List.pairwise_append.2 ⟨inv.contested_ordered, ?_, ?_⟩
    · refine List.Pairwise.filter _ ?_
      cases c.pipeline.chosen? with
      | none => exact .nil
      | some s => exact List.pairwise_singleton _ _
    · intro s old t lost
      have before := inv.givenUp_lt s (inv.contested_givenUp s old)
      exact Nat.lt_of_lt_of_le before ((new t).1 lost).2.1
  · intro s member
    rw [taken]
    show _ ∨ q.chosen? = some s
    rw [chosen]
    rcases List.mem_append.1 member with old | lost
    · exact inv.contested_open s old
    · exact .inr ((new s).1 lost).1
  · intro s member lost
    rw [taken] at member
    have below := inv.taken_lt s member
    rcases List.mem_append.1 lost with old | late
    · exact List.mem_append_left _ (inv.contested_of_taken s member old)
    · have above := (mem_passed.1 late).1
      omega
  · intro s found lt
    have found : q.chosen? = some s := found
    rw [chosen] at found
    by_cases old : s < c.pipeline.channel.ring.consumed
    · exact List.mem_append_left _ (inv.contested_of_chosen s found old)
    · exact List.mem_append_right _ ((new s).2 ⟨found, Nat.not_lt.1 old, lt⟩)
  · intro gone
    have gone : q.drain.phase = .delivering .overwritten := gone
    rw [drain] at gone
    show q.drain.cursor ∈ _
    rw [drain]
    exact List.mem_append_left _ (inv.contested_of_gone gone)
  · intro s gone
    exact List.mem_append_left _ (inv.contested_of_overwritten s gone)

/-- A step in which nothing is given up and nothing is given back: the loop goes on to another
phase, and counts what it had in its hands. -/
theorem Inv.turn (inv : c.Inv) {q : Pipeline σ} {counted : List (Nat × Fate)} {log : List Bytes}
    (accounts : q.Accounts log c.contested.length)
    (consumed : q.channel.ring.consumed = c.pipeline.channel.ring.consumed)
    (overflowed : q.channel.ring.overflowed = c.pipeline.channel.ring.overflowed)
    (tally : q.channel.tally = Tally.ofFates (counted.map Prod.snd))
    (taken : ({ c with pipeline := q, counted } : Census σ).taken = c.taken)
    (floor : c.pipeline.floor ≤ q.floor)
    (chosen : ∀ s, q.chosen? = some s →
      c.pipeline.chosen? = some s ∨ c.pipeline.channel.ring.consumed ≤ s)
    (still : ∀ s, c.pipeline.chosen? = some s → q.chosen? = some s)
    (gone : q.drain.phase ≠ .delivering .overwritten)
    (overwritten : ∀ s, (s, Fate.overwritten) ∈ counted → s ∈ c.contested) :
    ({ c with pipeline := q, counted } : Census σ).Inv where
  accounts := ⟨log, accounts⟩
  overflowed := overflowed.trans inv.overflowed
  givenUp_lt s member := Nat.lt_of_lt_of_eq (inv.givenUp_lt s member) consumed.symm
  givenUp_ordered := inv.givenUp_ordered
  tally := tally
  taken_lt s member := Nat.lt_of_lt_of_le (inv.taken_lt s (taken ▸ member)) floor
  taken_ordered := taken ▸ inv.taken_ordered
  covered s lt := taken ▸ inv.covered s (Nat.lt_of_lt_of_eq lt consumed)
  contested_givenUp := inv.contested_givenUp
  contested_ordered := inv.contested_ordered
  contested_open s member := taken ▸ (inv.contested_open s member).imp_right (still s)
  contested_of_taken := taken ▸ inv.contested_of_taken
  contested_of_chosen s found lt := by
    have lt := Nat.lt_of_lt_of_eq lt consumed
    rcases chosen s found with same | above
    · exact inv.contested_of_chosen s same lt
    · exact absurd lt (Nat.not_lt.2 above)
  contested_of_gone found := absurd found gone
  contested_of_overwritten := overwritten

theorem Inv.move (inv : c.Inv) {q : Pipeline σ} {log : List Bytes}
    (accounts : q.Accounts log c.contested.length) (same : q.channel = c.pipeline.channel)
    (taken : ({ c with pipeline := q } : Census σ).taken = c.taken)
    (floor : c.pipeline.floor ≤ q.floor)
    (chosen : ∀ s, q.chosen? = some s →
      c.pipeline.chosen? = some s ∨ c.pipeline.channel.ring.consumed ≤ s)
    (still : ∀ s, c.pipeline.chosen? = some s → q.chosen? = some s)
    (gone : q.drain.phase ≠ .delivering .overwritten) :
    ({ c with pipeline := q } : Census σ).Inv :=
  inv.turn accounts (by rw [same]) (by rw [same]) (by rw [same, inv.tally]) taken floor chosen still
    gone inv.contested_of_overwritten

theorem push_of_channel_eq {q : Pipeline σ} (same : q.channel = c.pipeline.channel) :
    c.push q = { c with pipeline := q } := by
  have nothing : c.pipeline.passed q = [] := by
    rw [Pipeline.passed, same, Nat.sub_self]
    rfl
  have uncontested : c.pipeline.chosen?.toList.filter (· ∈ c.pipeline.passed q) = [] := by
    rw [nothing]
    exact List.filter_eq_nil_iff.2 fun s _ => by simp
  rw [push, uncontested, nothing, List.append_nil, List.append_nil]

theorem consume_of_not_callsSink {now : UInt64}
    (quiet : c.pipeline.drain.phase.callsSink = false) :
    c.consume sink now = { c with pipeline := c.pipeline.step sink now } := by
  unfold consume
  cases at_ : c.pipeline.drain.phase with
  | releasing found => rfl
  | delivering found | flushing | closing =>
    rw [at_] at quiet
    cases quiet
  | _ =>
    have same : (c.pipeline.step sink now).channel = c.pipeline.channel :=
      Pipeline.channel_step_eq quiet (by rw [at_]; rintro found ⟨⟩) now
    have nothing : c.pipeline.fate? sink = none := by rw [Pipeline.fate?, at_]
    simp only [push_of_channel_eq same, nothing, Option.map_none, Option.toList_none,
      List.append_nil]

/-- A record that the loop gives back is taken, and it is contested if it was given up before. -/
theorem Inv.release (inv : c.Inv) {found : Ring.Reading}
    (at_ : c.pipeline.drain.phase = .releasing found) (now : UInt64) :
    (c.consume sink now).Inv := by
  obtain ⟨log, accounts⟩ := inv.accounts
  have released : (c.pipeline.step sink now).Accounts log c.contested.length :=
    accounts.release at_ now
  have chosen : c.pipeline.chosen? = some c.pipeline.drain.cursor := by
    rw [Pipeline.chosen?, at_]
  have before : c.taken = c.countedSequences := by rw [taken, at_]
  have floor : c.pipeline.floor = c.pipeline.drain.cursor := by rw [Pipeline.floor, at_]
  have floor_le := accounts.floor_le
  have below := inv.taken_lt
  have open_ := inv.contested_open
  rw [before, floor] at below
  rw [floor] at floor_le
  rw [before] at open_
  have given : ∀ s ∈ c.countedSequences ++ [c.pipeline.drain.cursor],
      s ∈ c.countedSequences ∨ s = c.pipeline.drain.cursor := by
    intro s member
    exact (List.mem_append.1 member).imp_right List.mem_singleton.1
  rw [consume_of_not_callsSink (by rw [at_]; rfl)]
  simp only [Pipeline.step, at_] at released ⊢
  refine ⟨⟨log, released⟩, inv.overflowed, ?_, inv.givenUp_ordered, inv.tally, ?_, ?_, ?_,
    inv.contested_givenUp, inv.contested_ordered, ?_, ?_, ?_, ?_, inv.contested_of_overwritten⟩
  · intro s member
    exact Nat.lt_of_lt_of_le (inv.givenUp_lt s member) (Nat.le_max_left _ _)
  · intro s member
    rcases given s member with old | rfl
    · exact Nat.lt_succ_of_lt (below s old)
    · exact Nat.lt_succ_self _
  · refine List.pairwise_append.2 ⟨before ▸ inv.taken_ordered, List.pairwise_singleton _ _, ?_⟩
    intro s old t last
    rw [List.mem_singleton.1 last]
    exact below s old
  · intro s lt
    have lt : s < max c.pipeline.channel.ring.consumed (c.pipeline.drain.cursor + 1) := lt
    show _ ∨ s ∈ c.countedSequences ++ [c.pipeline.drain.cursor]
    rw [List.mem_append, List.mem_singleton]
    by_cases old : s < c.pipeline.channel.ring.consumed
    · exact (inv.covered s old).imp_right fun member => .inl (before ▸ member)
    · exact .inr (.inr (by omega))
  · intro s member
    show s ∈ c.countedSequences ++ [c.pipeline.drain.cursor] ∨ _
    rw [List.mem_append, List.mem_singleton]
    rcases open_ s member with old | busy
    · exact .inl (.inl old)
    · rw [chosen] at busy
      exact .inl (.inr (Option.some.inj busy).symm)
  · intro s member lost
    rcases given s member with old | rfl
    · exact inv.contested_of_taken s (before ▸ old) lost
    · exact inv.contested_of_chosen _ chosen (inv.givenUp_lt _ lost)
  · intro s busy
    cases busy
  · intro gone
    cases gone
    have knows := accounts.knows
    have window := accounts.within.published_le
    unfold Pipeline.Knows at knows
    rw [at_] at knows
    have lapped := knows.2 rfl
    have past : c.pipeline.drain.cursor < c.pipeline.channel.ring.consumed := by omega
    exact inv.contested_of_chosen _ chosen past

theorem push_congr {q q' : Pipeline σ}
    (same : q'.channel.ring.consumed = q.channel.ring.consumed) :
    c.push q' = { c.push q with pipeline := q' } := by
  have passed : c.pipeline.passed q' = c.pipeline.passed q := by
    rw [Pipeline.passed, Pipeline.passed, same]
  rw [push, push, passed]

/-- A step that calls the sink counts the record in the loop's hands, if there is one. What the sink
publishes is not contested. -/
theorem Inv.call (never : sink.NeverCommits) (inv : c.Inv)
    (calls : c.pipeline.drain.phase.callsSink = true) (now : UInt64) :
    (c.consume sink now).Inv := by
  obtain ⟨log, accounts⟩ := inv.accounts
  obtain ⟨written, same, -⟩ := c.pipeline.served_spares sink now
  have called := accounts.call never calls now
  have served := inv.push accounts
    (Pipeline.fed_served never accounts.keeps accounts.within now) same written.tally
  have uncontested : (c.push (c.pipeline.served sink now)).contested = c.contested := by
    rw [Census.push, Pipeline.chosen?_of_callsSink calls]
    exact List.append_nil _
  obtain ⟨sinkReports, decodeReports, notices, stepped⟩ :=
    Pipeline.exists_step_eq sink calls now
  have after : c.push (c.pipeline.step sink now) =
      { c.push (c.pipeline.served sink now) with pipeline := c.pipeline.step sink now } :=
    push_congr (by rw [stepped]; rfl)
  have consumed : (c.pipeline.step sink now).channel.ring.consumed =
      (c.pipeline.served sink now).channel.ring.consumed := by
    rw [stepped]
    rfl
  have overflowed : (c.pipeline.step sink now).channel.ring.overflowed =
      (c.pipeline.served sink now).channel.ring.overflowed := by
    rw [stepped]
    rfl
  have drain : (c.pipeline.step sink now).drain = c.pipeline.drainAfter sink := by rw [stepped]
  have tally : (c.pipeline.step sink now).channel.tally = c.pipeline.tallyAfter sink := by
    rw [stepped]
    rfl
  rw [← uncontested] at called
  have none : (c.pipeline.served sink now).chosen? = none := by
    rw [Pipeline.chosen?, same]
    exact Pipeline.chosen?_of_callsSink calls
  have still : ∀ s, (c.push (c.pipeline.served sink now)).pipeline.chosen? = some s →
      (c.pipeline.step sink now).chosen? = some s := by
    intro s found
    cases none.symm.trans found
  unfold consume
  simp only [after]
  cases at_ : c.pipeline.drain.phase with
  | delivering found =>
    simp only [Pipeline.drainAfter, at_] at drain
    simp only [Pipeline.tallyAfter, Pipeline.fate?, at_, Option.elim] at tally
    simp only [Pipeline.fate?, at_, Option.map, Option.toList]
    refine served.turn called consumed overflowed ?_ ?_ ?_ ?_ still ?_ ?_
    · rw [tally, inv.tally, List.map_append, ← Tally.ofFates_concat]
      rfl
    · simp only [taken, Census.push, drain, same, at_, countedSequences, List.map_append,
        List.map_cons, List.map_nil]
    · show (c.pipeline.served sink now).floor ≤ _
      simp only [Pipeline.floor, drain, same, at_, Nat.le_refl]
    · intro s busy
      rw [Pipeline.chosen?, drain] at busy
      cases busy
    · rw [drain]
      rintro ⟨⟩
    · intro s member
      rcases List.mem_append.1 member with old | new
      · exact served.contested_of_overwritten s old
      · obtain ⟨rfl, gone⟩ := Prod.mk.inj (List.mem_singleton.1 new)
        rw [uncontested]
        refine inv.contested_of_gone ?_
        rw [at_, (Pipeline.fate_eq_overwritten_iff sink c.pipeline found).1 gone.symm]
  | flushing | closing =>
    simp only [Pipeline.drainAfter, at_] at drain
    simp only [Pipeline.tallyAfter, Pipeline.fate?, at_, Option.elim] at tally
    simp only [Pipeline.fate?, at_, Option.map, Option.toList, List.append_nil]
    refine served.turn called consumed overflowed (tally.trans inv.tally) ?_ ?_ ?_ still ?_
      served.contested_of_overwritten
    · simp only [taken, Census.push, drain, same, at_, countedSequences]
    · show (c.pipeline.served sink now).floor ≤ _
      simp only [Pipeline.floor, drain, same, at_, Nat.le_refl]
    · intro s busy
      rw [Pipeline.chosen?, drain] at busy
      cases busy
    · rw [drain]
      rintro ⟨⟩
  | polling | catchingUp published | reading | releasing found | idling | leaving | parked
  | ended panicked =>
    rw [at_] at calls
    cases calls

theorem taken_of_not_isBusy (idle : c.pipeline.isBusy = false) : c.taken = c.countedSequences := by
  unfold Pipeline.isBusy at idle
  unfold taken
  cases at_ : c.pipeline.drain.phase with
  | delivering found =>
    rw [at_] at idle
    cases idle
  | _ => rfl

theorem Inv.rest (never : sink.NeverCommits) (inv : c.Inv)
    (quiet : c.pipeline.drain.phase.callsSink = false)
    (keeps : ∀ found, c.pipeline.drain.phase ≠ .releasing found) (now : UInt64) :
    (c.consume sink now).Inv := by
  obtain ⟨log, accounts⟩ := inv.accounts
  have stepped := accounts.step never now
  have same : (c.pipeline.step sink now).channel = c.pipeline.channel :=
    Pipeline.channel_step_eq quiet keeps now
  rw [consume_of_not_callsSink quiet]
  cases at_ : c.pipeline.drain.phase with
  | delivering found | flushing | closing =>
    rw [at_] at quiet
    cases quiet
  | releasing found => exact absurd at_ (keeps found)
  | reading =>
    simp only [Pipeline.step, at_, Pipeline.enter] at stepped ⊢
    refine inv.move stepped rfl ?_ ?_ ?_ ?_ (by rintro ⟨⟩)
    · simp only [taken, at_, countedSequences]
    · simp only [Pipeline.floor, at_, Nat.le_refl]
    · simp only [Pipeline.chosen?, at_]
      exact fun s busy => .inl busy
    · simp only [Pipeline.chosen?, at_, imp_self, implies_true]
  | catchingUp published =>
    obtain ⟨phase, step, next⟩ := accounts.exists_catchingUp_eq sink at_ now
    have idle : c.pipeline.isBusy = false := by rw [Pipeline.isBusy, at_]
    obtain ⟨floor, -, -, chosen⟩ := Pipeline.idle_of_not_isBusy idle
    have floor_le := accounts.floor_le
    rw [floor] at floor_le
    rw [step] at stepped ⊢
    refine inv.move stepped rfl ?_ ?_ ?_ ?_ ?_
    · rw [taken_of_not_isBusy idle]
      rcases next with rfl | ⟨rfl, -⟩ <;> rfl
    · rw [floor]
      rcases next with rfl | ⟨rfl, -⟩ <;> exact floor_le
    · intro s busy
      rcases next with rfl | ⟨rfl, -⟩
      · cases busy
      · exact .inr (Nat.le_of_eq (Option.some.inj busy))
    · intro s busy
      cases chosen.symm.trans busy
    · rcases next with rfl | ⟨rfl, -⟩ <;> rintro ⟨⟩
  | polling | idling | leaving | parked | ended panicked =>
    have idle : c.pipeline.isBusy = false := by rw [Pipeline.isBusy, at_]
    obtain ⟨unflushed, phase, step, there, -⟩ :=
      Pipeline.exists_step_idle sink idle quiet (by rw [at_]; rintro _ ⟨⟩) now
    obtain ⟨floor, -, -, chosen⟩ := Pipeline.idle_of_not_isBusy idle
    obtain ⟨floor', -, -, chosen'⟩ := Pipeline.idle_of_not_isBusy there
    rw [step] at stepped ⊢
    refine inv.move stepped rfl ?_ ?_ ?_ ?_ ?_
    · rw [taken_of_not_isBusy idle, taken_of_not_isBusy there]
      rfl
    · exact Nat.le_of_eq (floor.trans floor'.symm)
    · intro s busy
      cases chosen'.symm.trans busy
    · intro s busy
      cases chosen.symm.trans busy
    · rintro rfl
      cases there

/-- **Every access of the loop keeps the invariant.** -/
theorem Inv.consume (never : sink.NeverCommits) (inv : c.Inv) (now : UInt64) :
    (c.consume sink now).Inv := by
  cases calls : c.pipeline.drain.phase.callsSink with
  | true => exact inv.call never calls now
  | false =>
    cases at_ : c.pipeline.drain.phase with
    | releasing found => exact inv.release at_ now
    | _ => exact inv.rest never calls (by rw [at_]; rintro _ ⟨⟩) now

theorem Inv.next (never : sink.NeverCommits) (inv : c.Inv) (event : CensusEvent) :
    (c.next sink event).Inv := by
  cases event with
  | publish mode encoded =>
    obtain ⟨log, accounts⟩ := inv.accounts
    exact inv.push accounts (Channel.fed_publishBy accounts.keeps accounts.within mode encoded) rfl
      rfl
  | consume now => exact inv.consume never now
  | stop =>
    obtain ⟨log, ⟨keeps, within, floor_le, gap, knows, balance, skipped_le⟩⟩ := inv.accounts
    exact ⟨⟨log, keeps, within, floor_le, gap, knows, balance, skipped_le⟩, inv.overflowed,
      inv.givenUp_lt, inv.givenUp_ordered, inv.tally, inv.taken_lt, inv.taken_ordered, inv.covered,
      inv.contested_givenUp, inv.contested_ordered, inv.contested_open, inv.contested_of_taken,
      inv.contested_of_chosen, inv.contested_of_gone, inv.contested_of_overwritten⟩

theorem Inv.run (never : sink.NeverCommits) (inv : c.Inv) (events : List CensusEvent) :
    (c.run sink events).Inv := by
  induction events generalizing c with
  | nil => exact inv
  | cons event rest ih => exact ih (inv.next never event)

theorem inv_start (g : Geometry) (mode : WriterMode) (threshold : Severity) (state : σ) :
    (start g mode threshold state).Inv where
  accounts := ⟨[], Pipeline.accounts_start (Ring.keeps_empty g) (Ring.within_empty g) rfl rfl state⟩
  overflowed := rfl
  givenUp_lt _ member := nomatch member
  givenUp_ordered := .nil
  tally := rfl
  taken_lt _ member := nomatch member
  taken_ordered := .nil
  covered s lt := absurd lt (Nat.not_lt_zero s)
  contested_givenUp _ member := nomatch member
  contested_ordered := .nil
  contested_open _ member := nomatch member
  contested_of_taken _ member := nomatch member
  contested_of_chosen _ chosen := nomatch chosen
  contested_of_gone gone := nomatch gone
  contested_of_overwritten _ member := nomatch member

theorem counted_prefix_taken (c : Census σ) : c.countedSequences <+: c.taken := by
  unfold taken
  split
  · exact List.prefix_append _ _
  · exact List.prefix_refl _

theorem Inv.attributed (inv : c.Inv) : c.Attributed where
  overflowed := inv.overflowed
  givenUp_ordered := inv.givenUp_ordered
  tally := inv.tally
  counted_ordered := inv.taken_ordered.sublist c.counted_prefix_taken.sublist
  twice s member := by
    have taken := c.counted_prefix_taken.subset member
    exact ⟨inv.contested_of_taken s taken, inv.contested_givenUp s⟩
  overwritten := inv.contested_of_overwritten
  contested_ordered := inv.contested_ordered
  complete := by
    rintro ⟨idle, done⟩
    obtain ⟨log, accounts⟩ := inv.accounts
    obtain ⟨consumed, balance⟩ := accounts.drained idle done
    obtain ⟨-, -, -, chosen⟩ := Pipeline.idle_of_not_isBusy idle
    have taken := taken_of_not_isBusy idle
    refine ⟨?_, ?_, ?_⟩
    · intro s lt
      exact taken ▸ inv.covered s (consumed ▸ lt)
    · intro s member
      refine ⟨inv.contested_givenUp s member, ?_⟩
      rcases inv.contested_open s member with counted | busy
      · exact taken ▸ counted
      · cases chosen.symm.trans busy
    · simp only [stats, Channel.stats]
      rw [balance, Tally.answered]
      omega

/-- **Every count is of records, and a record is in two counts only if writers gave it up while the
loop was reading it.** Whatever is published, whenever, and whatever the sink does but mark records
as consumed. -/
theorem attributed_run (sink : Sink σ) (never : sink.NeverCommits) (g : Geometry)
    (mode : WriterMode) (threshold : Severity) (state : σ) (events : List CensusEvent) :
    ((start g mode threshold state).run sink events).Attributed :=
  ((inv_start g mode threshold state).run never events).attributed

/-- A sink that takes everything. -/
def accepting : Sink Unit := Sink.ofWrite fun s _ => (.ok (), s)

/-- Two records fill a ring; the third comes while the first is being read. -/
def raced : Census Unit :=
  let publish (t : UInt64) : CensusEvent := .publish .claimed (Record.encode ⟨t, .info, 0, []⟩)
  (start .twoSlots .claimed .trace ()).run accepting
    (publish 1 :: publish 2 :: .consume 0 :: .consume 0 :: .consume 0 :: publish 3 ::
      List.replicate 12 (.consume 0))

theorem attributed_run_raced : accepting.NeverCommits ∧ raced.Attributed ∧
    raced.counted = [(0, .delivered), (1, .delivered), (2, .delivered)] ∧
      raced.contested = [0] := by
  have never : accepting.NeverCommits := by
    refine ⟨?_, ?_⟩
    · intro s f a member
      cases member
    · intro s a member
      cases member
  exact ⟨never, attributed_run accepting never _ _ _ _ _, by decide, by decide⟩

/-- So a record that was delivered can be a loss as well, and the counts of a pipeline at rest can
come to more than was published. -/
theorem counted_twice : raced.Drained ∧ (0, .delivered) ∈ raced.counted ∧ 0 ∈ raced.givenUp ∧
    raced.stats.published = 3 ∧
    raced.stats.delivered + raced.stats.sinkFailures + raced.stats.decodeFailures +
      raced.stats.skipped + raced.stats.overflowed = 4 := by
  unfold Drained
  decide

end Census

end LogRelay
