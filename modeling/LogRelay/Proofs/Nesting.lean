/-
# Writes in the middle of writes

While a message is being formatted, values may log messages of their own, to the same channel or to
another one, and formatting may end anywhere, with a failure or a panic. The thread's buffer is busy
all that time. So a call that is made meanwhile is turned away before its own message is looked at:
it is one failed write of the channel that it was meant for, if that takes it at all, and nothing
else. The outer write goes on with the thread that these calls leave behind, and then publishes one
record or is one failed write itself.

What a write does to the channels is said once for all (`Thread.Wrote`): which record is published
in each of them, how many failed writes are counted there, and that nothing else is touched.

Key definitions: `Thread.Wrote`, `Thread.TurnsAway`, `Script.calls`, `Thread.innerCalls`,
`Thread.record?`, `Thread.failures`, `Thread.WritesAtomically`.
Key theorems: `Thread.wrote_foldl_turnAway`, `Script.busy_of_mem_calls`, `Thread.wrote_log`,
`Thread.writesAtomically`.
-/
import LogRelay.Proofs.Solo
import LogRelay.Proofs.Truncation

namespace LogRelay

namespace Thread

variable {n : Nat} {t t' t'' : Thread n}

/-- Whether an entry with this heading is taken by its channel. -/
def accepts (t : Thread n) (h : Heading n) : Bool :=
  (t.channels.get h.channel).accepts h.severity

theorem get_mapChannel_of_ne (t : Thread n) {i j : Fin n} (ne : i ≠ j) (f : Channel → Channel) :
    (t.mapChannel i f).channels.get j = t.channels.get j :=
  Vector.getElem_set_ne i.isLt j.isLt fun same => ne (Fin.ext same)

/-! ### What writes do to the channels -/

/-- From `t` to `t'` the given records were published, one in a channel at the most, and some failed
writes were counted in each. Nothing else of the channels was touched, and the buffer can be had if
it could be before. -/
structure Wrote (t t' : Thread n) (given : Fin n → Option Record) (failures : Fin n → Nat) :
    Prop where
  state : t'.scratch.state = t.scratch.state
  channels : ∀ j, ∃ reports notices,
    t'.channels.get j = ((t.channels.get j).publish? (given j)).withReports reports notices ∧
      reports.total = (t.channels.get j).writeReports.total + failures j

theorem Wrote.refl (t : Thread n) : t.Wrote t (fun _ => none) fun _ => 0 :=
  ⟨rfl, fun _ => ⟨_, _, rfl, rfl⟩⟩

theorem Wrote.accepts_eq {failures : Fin n → Nat} (wrote : t.Wrote t' (fun _ => none) failures)
    (h : Heading n) : t'.accepts h = t.accepts h := by
  obtain ⟨_, _, same, -⟩ := wrote.channels h.channel
  rw [accepts, same]
  rfl

theorem Wrote.trans {given : Fin n → Option Record} {failures more : Fin n → Nat}
    (first : t.Wrote t' (fun _ => none) failures) (next : t'.Wrote t'' given more) :
    t.Wrote t'' given fun j => failures j + more j := by
  refine ⟨next.state.trans first.state, fun j => ?_⟩
  obtain ⟨reports, notices, same, total⟩ := first.channels j
  obtain ⟨reports', notices', same', total'⟩ := next.channels j
  rw [same] at same' total'
  refine ⟨reports', notices', same'.trans ?_, ?_⟩
  · cases given j with
    | none => rfl
    | some r =>
      show ((Channel.withReports _ _ _).publish r.encode).withReports _ _ = _
      rw [Channel.publish_withReports]
      rfl
  · rw [← Nat.add_assoc, ← total]
    exact total'

theorem wrote_refuse (t : Thread n) (i : Fin n) (now : Nat) (fault : WriteFault) :
    t.Wrote (t.mapChannel i (·.refuseWrite now fault)) (fun _ => none)
      fun j => if j = i then 1 else 0 := by
  refine ⟨rfl, fun j => ?_⟩
  by_cases same : j = i
  · subst same
    obtain ⟨reports, notices, refused, one⟩ := (t.channels.get j).exists_refuseWrite_eq now fault
    exact ⟨reports, notices, (t.get_mapChannel j _).trans refused, by rw [one, if_pos rfl]⟩
  · refine ⟨_, _, (t.get_mapChannel_of_ne (Ne.symm same) _).trans rfl, ?_⟩
    rw [if_neg same]
    rfl

theorem wrote_turnAway (now : UInt64) (t : Thread n) (h : Heading n) :
    t.Wrote (t.turnAway now h) (fun _ => none)
      fun j => if (j == h.channel && t.accepts h) = true then 1 else 0 := by
  cases taken : t.accepts h with
  | false =>
    have away : t.turnAway now h = t := if_neg (by rw [Bool.not_eq_true]; exact taken)
    simp only [Bool.and_false, Bool.false_eq_true, if_false, away]
    exact Wrote.refl t
  | true =>
    have away : t.turnAway now h = _ := if_pos taken
    simp only [Bool.and_true, beq_iff_eq, away]
    exact t.wrote_refuse h.channel now.toNat .reentrant

theorem wrote_foldl_turnAway (now : UInt64) (headings : List (Heading n)) (t : Thread n) :
    t.Wrote (headings.foldl (turnAway now) t) (fun _ => none)
      fun j => headings.countP fun h => j == h.channel && t.accepts h := by
  induction headings generalizing t with
  | nil => exact Wrote.refl t
  | cons h rest ih =>
    have first := t.wrote_turnAway now h
    have both := first.trans (ih (t.turnAway now h))
    simp only [first.accepts_eq] at both
    have sum : (fun j => (if (j == h.channel && t.accepts h) = true then 1 else 0) +
        rest.countP fun h => j == h.channel && t.accepts h) =
          fun j => (h :: rest).countP fun h => j == h.channel && t.accepts h := by
      funext j
      rw [List.countP_cons, Nat.add_comm]
    exact sum ▸ both

theorem wrote_publish (t : Thread n) (i : Fin n) (r : Record) :
    t.Wrote (t.mapChannel i (·.publish r.encode)) (fun j => if j = i then some r else none)
      fun _ => 0 := by
  refine ⟨rfl, fun j =>
    ⟨(t.channels.get j).writeReports, (t.channels.get j).notices, ?_, rfl⟩⟩
  by_cases same : j = i
  · subst same
    rw [t.get_mapChannel, if_pos rfl, Channel.publish?, Option.elim_some, Channel.publish_eq]
    rfl
  · rw [t.get_mapChannel_of_ne (Ne.symm same), if_neg same]
    rfl

/-- What is done while the buffer is busy is done as well when it is given back. -/
theorem Wrote.withScratch {given : Fin n → Option Record} {failures : Fin n → Nat} {buffer : Bytes}
    {state : ScratchState} (wrote : (t.withScratch buffer state).Wrote t' given failures)
    (bytes : Bytes) : t.Wrote (t'.withScratch bytes t.scratch.state) given failures :=
  ⟨rfl, wrote.channels⟩

/-! ### Calls that find the buffer busy -/

/-- A call that is made while the thread's buffer is busy. -/
structure TurnsAway (now : UInt64) (t : Thread n) (entry : Entry n) : Prop where
  busy : t.scratch.state = .busy
  /-- Its message is not looked at: any other would do as well. -/
  unread : ∀ other : Entry n, other.heading = entry.heading → t.log now other = t.log now entry
  /-- If its channel takes it, it is given up there. -/
  refused : t.accepts entry.heading = true → t.log now entry =
    t.mapChannel entry.heading.channel (·.refuseWrite now.toNat .reentrant)
  /-- Nothing is published, and that is one failed write. -/
  wrote : t.accepts entry.heading = true → t.Wrote (t.log now entry) (fun _ => none)
    fun j => if j = entry.heading.channel then 1 else 0
  /-- Otherwise nothing comes of it. -/
  ignored : t.accepts entry.heading = false → t.log now entry = t

theorem log_of_busy (busy : t.scratch.state = .busy) (now : UInt64) (entry : Entry n) :
    t.log now entry = t.turnAway now entry.heading := by
  obtain ⟨fill, composed⟩ := t.exists_log_eq_compose now entry
  rw [composed, compose_of_busy busy]

theorem turnsAway_of_busy (busy : t.scratch.state = .busy) (now : UInt64) (entry : Entry n) :
    t.TurnsAway now entry := by
  have refused : t.accepts entry.heading = true → t.log now entry =
      t.mapChannel entry.heading.channel (·.refuseWrite now.toNat .reentrant) :=
    fun taken => (log_of_busy busy now entry).trans (if_pos taken)
  refine ⟨busy, fun other same => ?_, refused, fun taken => ?_, fun ignored => ?_⟩
  · rw [log_of_busy busy, log_of_busy busy, same]
  · rw [refused taken]
    exact t.wrote_refuse _ _ _
  · exact log_of_not_accepts entry ignored

end Thread

/-- The calls that values make while a message is formatted, each with the thread that it finds. -/
def Script.calls {n : Nat} (now : UInt64) : Script n → Thread n → List (Thread n × Entry n)
  | .done, _ | .refuses, _ | .panics, _ => []
  | .text _ rest, t => rest.calls now t
  | .logs h message rest, t =>
    (t, .bytes h message) :: rest.calls now (t.log now (.bytes h message))
  | .formats h inner rest, t =>
    (t, .formatted h inner) :: rest.calls now (t.log now (.formatted h inner))

namespace Script

variable {n : Nat} {t : Thread n}

/-- Formatting does to the thread what the calls of its values do, one after the other. -/
theorem run_eq_foldl_calls (now : UInt64) (s : Script n) (t : Thread n) (d : Draft) :
    (s.run now t d).1 = (s.calls now t).foldl (fun t call => t.log now call.2) t := by
  induction s generalizing t d with
  | done | refuses | panics => rfl
  | text piece rest ih => exact ih t _
  | logs h message rest ih => exact ih _ d
  | formats h inner rest _ ih => exact ih _ d

theorem map_heading_calls (now : UInt64) (s : Script n) (t : Thread n) :
    (s.calls now t).map (fun call => call.2.heading) = s.nested := by
  induction s generalizing t with
  | done | refuses | panics => rfl
  | text piece rest ih => exact ih t
  | logs h message rest ih => exact congrArg (h :: ·) (ih _)
  | formats h inner rest _ ih => exact congrArg (h :: ·) (ih _)

/-- A call that finds the buffer busy leaves it so, and what the channels take does not change. -/
theorem busy_log (busy : t.scratch.state = .busy) (now : UInt64) (entry : Entry n) :
    (t.log now entry).scratch.state = .busy ∧ (t.log now entry).accepts = t.accepts := by
  rw [Thread.log_of_busy busy, Thread.scratch_turnAway]
  exact ⟨busy, funext (t.wrote_turnAway now entry.heading).accepts_eq⟩

theorem busy_of_mem_calls (now : UInt64) (s : Script n) (busy : t.scratch.state = .busy) :
    ∀ call ∈ s.calls now t, call.1.scratch.state = .busy ∧ call.1.accepts = t.accepts := by
  induction s generalizing t with
  | done | refuses | panics =>
    intro call member
    cases member
  | text piece rest ih => exact ih busy
  | logs h message rest ih | formats h inner rest _ ih =>
    intro call member
    cases member with
    | head => exact ⟨busy, rfl⟩
    | tail _ later =>
      obtain ⟨still, same⟩ := busy_log busy now _
      rw [← same]
      exact ih still call later

end Script

theorem Geometry.fitted_of_length_le {g : Geometry} {r : Record}
    (fits : r.message.length ≤ messageRoom g.slotBytes) : g.fitted r = r := by
  rw [fitted, Record.cut, List.take_of_length_le fits]

theorem length_foldl_fitText_le {room : Nat} (texts : List String) {message : Bytes}
    (fits : message.length ≤ room) : (texts.foldl (fitText room) message).length ≤ room := by
  induction texts generalizing message with
  | nil => exact fits
  | cons text rest ih =>
    apply ih
    have cut := boundaryBefore_le (utf8 text) (min (utf8 text).length (room - message.length))
    rw [fitText, List.length_append, List.length_take]
    omega

theorem Entry.length_message_le {n : Nat} (entry : Entry n) (room : Nat) :
    (entry.message room).length ≤ room := by
  cases entry with
  | bytes h message => exact List.length_take_le _ _
  | formatted h script => exact length_foldl_fitText_le script.texts (Nat.zero_le _)

/-! ### What a write comes to -/

namespace Thread

variable {n : Nat} {t : Thread n}

/-- The record of an entry has room for a message of so many bytes. -/
def room (t : Thread n) (h : Heading n) : Nat :=
  messageRoom (t.channels.get h.channel).geometry.slotBytes

/-- The thread with its buffer busy, as the values of an entry find it. -/
def atWork (t : Thread n) (h : Heading n) : Thread n :=
  t.withScratch (t.scratch.grown (t.channels.get h.channel).geometry.slotBytes) .busy

/-- The calls that the values of an entry make while it is composed. -/
def innerCalls (t : Thread n) (now : UInt64) : Entry n → List (Thread n × Entry n)
  | .bytes _ _ => []
  | .formatted h script =>
    if t.accepts h && t.scratch.state = .free then script.calls now (t.atWork h) else []

/-- Whether an entry that is taken is composed to its end. -/
def composes (t : Thread n) (entry : Entry n) : Bool :=
  t.scratch.state = .free && entry.ending.isOk

/-- Whether an entry is taken and then given up. -/
def fails (t : Thread n) (entry : Entry n) : Bool :=
  t.accepts entry.heading && !t.composes entry

/-- The record that is published, if one is. -/
def record? (t : Thread n) (now : UInt64) (entry : Entry n) : Option Record :=
  if t.accepts entry.heading && t.composes entry then
    some ⟨now, entry.heading.severity, entry.heading.component, entry.message (t.room entry.heading)⟩
  else none

/-- The record that is published in each channel. -/
def given (t : Thread n) (now : UInt64) (entry : Entry n) (j : Fin n) : Option Record :=
  if j = entry.heading.channel then t.record? now entry else none

/-- How many of the calls that the values of an entry make are taken by a channel. -/
def innerFailures (t : Thread n) (now : UInt64) (entry : Entry n) (j : Fin n) : Nat :=
  (t.innerCalls now entry).countP fun call =>
    j == call.2.heading.channel && call.1.accepts call.2.heading

/-- How many failed writes are counted in each channel: one for every such call, and one if the
entry itself is given up. -/
def failures (t : Thread n) (now : UInt64) (entry : Entry n) (j : Fin n) : Nat :=
  t.innerFailures now entry j + if j = entry.heading.channel && t.fails entry then 1 else 0

theorem innerCalls_eq_nil (now : UInt64) {entry : Entry n}
    (idle : (t.accepts entry.heading && t.scratch.state = .free) = false) :
    t.innerCalls now entry = [] := by
  cases entry with
  | bytes h message => rfl
  | formatted h script => exact if_neg (by rw [Bool.not_eq_true]; exact idle)

theorem innerCalls_formatted (now : UInt64) {h : Heading n} {script : Script n}
    (taken : t.accepts (Entry.formatted h script).heading = true)
    (free : t.scratch.state = .free) :
    t.innerCalls now (.formatted h script) = script.calls now (t.atWork h) :=
  if_pos (by rw [show t.accepts h = true from taken, free]; rfl)

/-- Which of the calls are taken can be told before they are made. -/
theorem innerFailures_of_free (now : UInt64) {entry : Entry n}
    (taken : t.accepts entry.heading = true) (free : t.scratch.state = .free) (j : Fin n) :
    t.innerFailures now entry j =
      entry.nested.countP fun h => j == h.channel && t.accepts h := by
  cases entry with
  | bytes h message => rfl
  | formatted h script =>
    show _ = script.nested.countP _
    rw [innerFailures, innerCalls_formatted now taken free,
      ← script.map_heading_calls now (t.atWork h), List.countP_map]
    apply List.countP_congr
    intro call member
    have same := (script.busy_of_mem_calls now (t := t.atWork h) rfl call member).2
    rw [same]
    exact Iff.rfl

theorem exists_log_eq_refuse (now : UInt64) {entry : Entry n}
    (taken : t.accepts entry.heading = true) (away : t.scratch.state ≠ .free) :
    ∃ fault, t.log now entry = t.mapChannel entry.heading.channel (·.refuseWrite now.toNat fault) := by
  cases state : t.scratch.state with
  | free => exact absurd state away
  | busy => exact ⟨_, (turnsAway_of_busy state now entry).refused taken⟩
  | tornDown =>
    obtain ⟨fill, composed⟩ := t.exists_log_eq_compose now entry
    exact ⟨_, composed.trans (compose_of_tornDown taken state)⟩

theorem given_eq_none (now : UInt64) {entry : Entry n}
    (idle : (t.accepts entry.heading && t.composes entry) = false) :
    t.given now entry = fun _ => none := by
  funext j
  simp only [given, record?, idle, Bool.false_eq_true, if_false, ite_self]

theorem failures_of_not_free (now : UInt64) {entry : Entry n}
    (idle : (t.accepts entry.heading && t.scratch.state = .free) = false) :
    t.failures now entry = fun j => if j = entry.heading.channel && t.fails entry then 1 else 0 := by
  funext j
  rw [failures, innerFailures, innerCalls_eq_nil now idle, List.countP_nil, Nat.zero_add]

theorem failures_of_free (now : UInt64) {entry : Entry n}
    (taken : t.accepts entry.heading = true) (free : t.scratch.state = .free) :
    t.failures now entry = fun j =>
      (entry.nested.countP fun h => j == h.channel && t.accepts h) +
        if j = entry.heading.channel && t.fails entry then 1 else 0 := by
  funext j
  rw [failures, innerFailures_of_free now taken free]

theorem wrote_log_of_free (now : UInt64) {entry : Entry n}
    (taken : t.accepts entry.heading = true) (free : t.scratch.state = .free) :
    t.Wrote (t.log now entry) (t.given now entry) (t.failures now entry) := by
  obtain ⟨bytes, same⟩ := exists_log_eq_of_free free now entry taken rfl
  have turned := ((t.atWork entry.heading).wrote_foldl_turnAway now entry.nested).withScratch bytes
  rw [free] at turned
  rw [same, failures_of_free now taken free]
  cases ends : entry.ending with
  | ok done =>
    have composed : t.composes entry = true := by
      rw [composes, free, ends]
      rfl
    have given : t.given now entry = fun j => if j = entry.heading.channel then
        some ⟨now, entry.heading.severity, entry.heading.component,
          entry.message (t.room entry.heading)⟩ else none := by
      funext j
      simp only [Thread.given, record?, taken, composed, Bool.and_self, if_true]
    rw [given]
    simp only [fails, taken, composed, Bool.not_true, Bool.and_false, Bool.false_eq_true, if_false]
    exact turned.trans (wrote_publish _ _ _)
  | error fault =>
    have given_up : t.composes entry = false := by
      rw [composes, ends]
      exact Bool.and_false _
    rw [given_eq_none now (by rw [given_up, Bool.and_false])]
    simp only [fails, taken, given_up, Bool.not_false, Bool.and_self, Bool.and_true,
      decide_eq_true_eq]
    exact turned.trans (wrote_refuse _ _ _ _)

/-- **What a write comes to.** It publishes the record of its entry if that is taken and composed to
its end, and counts the failed writes; nothing else of any channel is touched. -/
theorem wrote_log (t : Thread n) (now : UInt64) (entry : Entry n) :
    t.Wrote (t.log now entry) (t.given now entry) (t.failures now entry) := by
  cases taken : t.accepts entry.heading with
  | false =>
    rw [log_of_not_accepts entry taken, given_eq_none now (by rw [taken, Bool.false_and]),
      failures_of_not_free now (by rw [taken, Bool.false_and])]
    simp only [fails, taken, Bool.false_and, Bool.and_false, Bool.false_eq_true, if_false]
    exact Wrote.refl t
  | true =>
    by_cases free : t.scratch.state = .free
    · exact wrote_log_of_free now taken free
    · obtain ⟨fault, same⟩ := exists_log_eq_refuse now taken free
      have away : t.composes entry = false := by
        rw [composes, decide_eq_false free, Bool.false_and]
      rw [same, given_eq_none now (by rw [away, Bool.and_false]),
        failures_of_not_free now (by rw [decide_eq_false free, Bool.and_false])]
      simp only [fails, taken, away, Bool.not_false, Bool.and_self, Bool.and_true,
        decide_eq_true_eq]
      exact t.wrote_refuse _ _ _

end Thread

/-- While nothing is under way a record gets the next sequence, and is read there. -/
theorem Channel.shows_publish_of_solo {c : Channel} (solo : c.ring.Solo) (r : Record) :
    (c.publish r.encode).ring.published = c.ring.published + 1 ∧
      (c.publish r.encode).Shows c.ring.published (c.geometry.fitted r).encode := by
  have shows := c.shows_publish r
  have next : (c.ring.publish r.encode).1 = c.ring.published := solo.claimed_eq
  rw [c.publish_eq, solo.publishBy_eq] at shows ⊢
  rw [next] at shows
  exact ⟨congrArg (· + 1) solo.claimed_eq, shows⟩

namespace Thread

variable {n : Nat} {t : Thread n}

/-! ### A write as a whole -/

/-- What a write comes to, whatever its values do while it is composed. -/
structure WritesAtomically (now : UInt64) (t : Thread n) (entry : Entry n) : Prop where
  /-- All that its values log meanwhile is turned away, -/
  inner : ∀ call ∈ t.innerCalls now entry, TurnsAway now call.1 call.2
  /-- and the write goes on with the thread that these calls leave behind. -/
  onward : t.accepts entry.heading = true → t.scratch.state = .free →
    ∃ bytes, t.log now entry = (((t.innerCalls now entry).foldl (fun t call => t.log now call.2)
      (t.atWork entry.heading)).withScratch bytes .free).mapChannel entry.heading.channel
        (·.conclude now (.solo entry.heading.severity entry.heading.component)
          (entry.message (t.room entry.heading)) entry.ending)
  /-- The buffer can be had afterwards if it could be before. -/
  state : (t.log now entry).scratch.state = t.scratch.state
  ignored : t.accepts entry.heading = false → t.log now entry = t
  /-- If the entry is composed to its end one record is published, and it is read from there on. -/
  published : t.accepts entry.heading = true → t.composes entry = true →
    ∃ r, t.record? now entry = some r ∧
      t.Wrote (t.log now entry) (fun j => if j = entry.heading.channel then some r else none)
        (t.innerFailures now entry) ∧
      let ring := (t.channels.get entry.heading.channel).ring
      let after := (t.log now entry).channels.get entry.heading.channel
      after.ring.published = ring.published + 1 ∧ after.Shows ring.published r.encode
  /-- Otherwise none is published anywhere, and that is one failed write more. -/
  failed : t.accepts entry.heading = true → t.composes entry = false →
    t.Wrote (t.log now entry) (fun _ => none) fun j =>
      t.innerFailures now entry j + if j = entry.heading.channel then 1 else 0

theorem turnsAway_of_mem_innerCalls (now : UInt64) {entry : Entry n} {call : Thread n × Entry n}
    (member : call ∈ t.innerCalls now entry) : TurnsAway now call.1 call.2 := by
  cases entry with
  | bytes h message => cases member
  | formatted h script =>
    by_cases live : (t.accepts h && t.scratch.state = .free) = true
    · rw [innerCalls, if_pos live] at member
      exact turnsAway_of_busy (script.busy_of_mem_calls now rfl call member).1 now call.2
    · rw [innerCalls, if_neg live] at member
      cases member

/-- The calls that values make come to the same as being turned away by their headings. -/
theorem foldl_innerCalls (now : UInt64) {entry : Entry n}
    (taken : t.accepts entry.heading = true) (free : t.scratch.state = .free) :
    (t.innerCalls now entry).foldl (fun t call => t.log now call.2) (t.atWork entry.heading) =
      entry.nested.foldl (turnAway now) (t.atWork entry.heading) := by
  cases entry with
  | bytes h message => rfl
  | formatted h script =>
    have ran := script.run_eq_foldl_calls now (t.atWork h) (.blank [])
    rw [script.run_of_busy now (.blank []) rfl] at ran
    rw [innerCalls_formatted now taken free]
    exact ran.symm

theorem fitted_of_record? {now : UInt64} {entry : Entry n} {r : Record}
    (recorded : t.record? now entry = some r) :
    (t.channels.get entry.heading.channel).geometry.fitted r = r := by
  unfold record? at recorded
  split at recorded
  · cases recorded
    exact Geometry.fitted_of_length_le (entry.length_message_le (t.room entry.heading))
  · cases recorded

/-- **A write is atomic**, whatever is logged while its message is formatted and however that ends.
Each of the calls made meanwhile is one failed write where it is taken, and nothing else; the write
itself publishes one record or is one failed write. -/
theorem writesAtomically (t : Thread n) (solo : ∀ j, (t.channels.get j).ring.Solo) (now : UInt64)
    (entry : Entry n) : t.WritesAtomically now entry := by
  have wrote := t.wrote_log now entry
  refine ⟨fun _ => turnsAway_of_mem_innerCalls now, fun taken free => ?_, wrote.state,
    log_of_not_accepts entry, fun taken composed => ?_, fun taken given_up => ?_⟩
  · rw [foldl_innerCalls now taken free]
    exact exists_log_eq_of_free free now entry taken rfl
  · obtain ⟨r, recorded⟩ : ∃ r, t.record? now entry = some r :=
      ⟨_, if_pos (by rw [taken, composed]; rfl)⟩
    have given : t.given now entry = fun j =>
        if j = entry.heading.channel then some r else none := by
      funext j
      rw [Thread.given, recorded]
    have failures : t.failures now entry = t.innerFailures now entry := by
      funext j
      simp only [Thread.failures, fails, composed, Bool.not_true, Bool.and_false,
        Bool.false_eq_true, if_false, Nat.add_zero]
    rw [given, failures] at wrote
    obtain ⟨reports, notices, same, -⟩ := wrote.channels entry.heading.channel
    obtain ⟨one, shows⟩ := Channel.shows_publish_of_solo (solo entry.heading.channel) r
    rw [fitted_of_record? recorded] at shows
    refine ⟨r, recorded, wrote, ?_⟩
    rw [same, if_pos rfl]
    exact ⟨one, shows⟩
  · have failures : t.failures now entry = fun j =>
        t.innerFailures now entry j + if j = entry.heading.channel then 1 else 0 := by
      funext j
      simp only [Thread.failures, fails, taken, given_up, Bool.not_false, Bool.and_self,
        Bool.and_true, decide_eq_true_eq]
    rw [given_eq_none now (by rw [given_up, Bool.and_false]), failures] at wrote
    exact wrote

/-- Values of a message for the first channel log to both before the last of them panics. The call
for the second channel in the middle of another one is never made, and its last one is too slight
for it. -/
example :
    let t : Thread 2 :=
      ⟨{}, #v[.ofGeometry .twoSlots .claimed .trace, .ofGeometry .twoSlots .single .info]⟩
    let script : Script 2 := .text "a" (.logs ⟨1, .info, 0⟩ [1]
      (.formats ⟨0, .info, 0⟩ (.logs ⟨1, .info, 0⟩ [] .done) (.logs ⟨1, .debug, 0⟩ [2] .panics)))
    (t.log 5 (.formatted ⟨0, .warn, 9⟩ script)).channels.toList.map (fun c =>
      (c.stats.published, c.stats.writeFailures)) = [(0, 2), (0, 1)] := by decide

end Thread

end LogRelay
