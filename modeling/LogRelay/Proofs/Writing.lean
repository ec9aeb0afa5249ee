/-
# Logging an entry

A thread whose buffer is free composes a record in it and publishes exactly the encoding of that
record, its message cut to the slot, whatever earlier writes left in the buffer and however small it
was. What values log while a message is being formatted finds the buffer busy, so it is counted as a
failed write and nothing else comes of it; a message that cannot be formatted is one failed write
more. An entry that the channel does not accept changes nothing, and its script is not run.

What a script does to its channel depends on three things that can be read off it: how it ends
(`Script.ending`), what it writes (`Script.texts`) and what it tries to log (`Script.nested`). From
there on nothing looks at a script's run again.

Key definitions: `Script.ending`, `Script.texts`, `Script.nested`, `Entry.message`, `Entry.record?`,
`Entry.attempts`, `Channel.write`, `Channel.record?`, `Channel.attempts`.
Key theorems: `take_composed`, `Script.run_of_busy`, `Thread.exists_compose_eq`,
`Thread.exists_log_eq_of_free`, `Channel.log_eq`, `Channel.log_bytes`, `Channel.exists_write_eq`.
-/
import LogRelay.Proofs.Retention
import LogRelay.Thread

namespace LogRelay

/-- A header laid over the front of a buffer, with a draft in the area behind it, is the encoding of
the record with the drafted message. -/
theorem take_composed {buffer : Bytes} (d : Draft) (room : headerSize ≤ buffer.length)
    (timestamp : UInt64) (severity : Severity) (component : UInt8) :
    (overlay 0 (header timestamp severity component d.used)
      (overlay headerSize d.area buffer)).take (headerSize + d.used) =
        (Record.mk timestamp severity component d.message).encode := by
  have front : (buffer.take headerSize).length = headerSize := by
    rw [List.length_take]; omega
  have behind : (buffer.take headerSize ++ d.area ++
      buffer.drop (headerSize + d.area.length)).drop headerSize =
        d.area ++ buffer.drop (headerSize + d.area.length) := by
    rw [List.append_assoc, List.drop_left' front]
  have used : d.message.length = d.used := by
    rw [Draft.message, List.length_take, Nat.min_eq_left d.used_le]
  have split : headerSize + d.used =
      (header timestamp severity component d.used).length + d.used := by rw [length_header]
  rw [overlay, overlay, List.take_zero, List.nil_append, Nat.zero_add, length_header, behind,
    split, List.take_length_add_append, List.take_append_of_le_length d.used_le, Record.encode,
    used]
  rfl

/-! ### What a script says -/

namespace Script

variable {n : Nat}

/-- How formatting ends: well, or at the first value that gives up. -/
def ending : Script n → Except WriteFault Unit
  | .done => .ok ()
  | .refuses => .error .formatting
  | .panics => .error .panicked
  | .text _ rest => rest.ending
  | .logs _ _ rest => rest.ending
  | .formats _ _ rest => rest.ending

/-- The pieces of text that are written before the end. -/
def texts : Script n → List String
  | .text piece rest => piece :: rest.texts
  | .logs _ _ rest => rest.texts
  | .formats _ _ rest => rest.texts
  | .done | .refuses | .panics => []

/-- What values try to log before the end. -/
def nested : Script n → List (Heading n)
  | .text _ rest => rest.nested
  | .logs h _ rest => h :: rest.nested
  | .formats h _ rest => h :: rest.nested
  | .done | .refuses | .panics => []

end Script

/-- A message with as many characters of a text behind it as fit into `room` bytes. -/
def fitText (room : Nat) (message : Bytes) (text : String) : Bytes :=
  message ++ (utf8 text).take
    (boundaryBefore (utf8 text) (min (utf8 text).length (room - message.length)))

namespace Entry

variable {n : Nat}

/-- How composing an entry ends. -/
def ending : Entry n → Except WriteFault Unit
  | bytes _ _ => .ok ()
  | formatted _ script => script.ending

/-- What values try to log while an entry is composed. -/
def nested : Entry n → List (Heading n)
  | bytes _ _ => []
  | formatted _ script => script.nested

/-- The message of an entry, in an area of `room` bytes. -/
def message (room : Nat) : Entry n → Bytes
  | bytes _ message => message.take room
  | formatted _ script => script.texts.foldl (fitText room) []

/-- The record that comes of an accepted entry, if the thread's buffer can be had and formatting
ends well. -/
def record? (entry : Entry n) (room : Nat) (now : UInt64) (state : ScratchState) : Option Record :=
  match state, entry.ending with
  | .free, .ok () => some
    ⟨now, entry.heading.severity, entry.heading.component, entry.message room⟩
  | _, _ => none

/-- How many writes an accepted entry comes to: its own, and those that are accepted while it is
formatted, which it is only if the thread's buffer can be had. -/
def attempts (entry : Entry n) (accepts : Severity → Bool) : ScratchState → Nat
  | .free => entry.nested.countP (fun h => accepts h.severity) + 1
  | _ => 1

end Entry

/-! ### Drafts -/

namespace Draft

theorem length_message (d : Draft) : d.message.length = d.used := by
  rw [message, List.length_take, Nat.min_eq_left d.used_le]

theorem message_addBytes_blank (area message : Bytes) :
    ((blank area).addBytes message).message = message.take area.length := by
  rw [addBytes, message_append]
  rfl

theorem message_addText (d : Draft) (text : String) :
    (d.addText text).message = fitText d.area.length d.message text := by
  rw [addText, message_append, fitText, fitting, room, length_message]

theorem length_area_addText (d : Draft) (text : String) :
    (d.addText text).area.length = d.area.length := by
  rw [addText, length_append]

theorem message_foldl_addText (texts : List String) (d : Draft) :
    (texts.foldl addText d).message = texts.foldl (fitText d.area.length) d.message := by
  induction texts generalizing d with
  | nil => rfl
  | cons text rest ih =>
    rw [List.foldl_cons, List.foldl_cons, ih, length_area_addText, message_addText]

end Draft

/-! ### Threads -/

namespace Thread

variable {n : Nat}

theorem channels_solo (scratch : Scratch) (c : Channel) (i : Fin 1) :
    (solo scratch c).channels[i] = c := by
  match i with
  | ⟨0, _⟩ => rfl

theorem withScratch_solo (scratch : Scratch) (c : Channel) (bytes : Bytes) (state : ScratchState) :
    (solo scratch c).withScratch bytes state = solo ⟨bytes, state⟩ c := rfl

theorem mapChannel_solo (scratch : Scratch) (c : Channel) (i : Fin 1) (f : Channel → Channel) :
    (solo scratch c).mapChannel i f = solo scratch (f c) := by
  match i with
  | ⟨0, _⟩ => rfl

end Thread

/-- While the buffer is busy a script writes its texts, and all that values log is turned away. -/
theorem Script.run_of_busy {n : Nat} (now : UInt64) (s : Script n) {t : Thread n} (d : Draft)
    (busy : t.scratch.state = .busy) :
    s.run now t d =
      (s.nested.foldl (Thread.turnAway now) t, s.texts.foldl Draft.addText d, s.ending) := by
  induction s generalizing t d with
  | done => rfl
  | refuses => rfl
  | panics => rfl
  | text piece rest ih => exact ih _ busy
  | logs h message rest ih =>
    rw [Script.run, Thread.logBytes, Thread.compose_of_busy busy]
    exact ih d (by rw [Thread.scratch_turnAway, busy])
  | formats h inner rest _ ih =>
    rw [Script.run, Thread.compose_of_busy busy]
    exact ih d (by rw [Thread.scratch_turnAway, busy])

/-! ### Channels -/

namespace Channel

/-- What comes of an entry that is logged while another is composed. -/
def turnAway (now : UInt64) (c : Channel) (severity : Severity) : Channel :=
  if c.accepts severity then c.refuseWrite now.toNat .reentrant else c

/-- What comes of a composed record: it is published, or a failed write is counted. -/
def conclude (c : Channel) (now : UInt64) (h : Heading 1) (message : Bytes) :
    Except WriteFault Unit → Channel
  | .ok () => c.publish (Record.mk now h.severity h.component message).encode
  | .error fault => c.refuseWrite now.toNat fault

/-- What comes of an accepted entry from a thread whose buffer is in some state. -/
def write (c : Channel) (now : UInt64) (entry : Entry 1) : ScratchState → Channel
  | .busy => c.refuseWrite now.toNat .reentrant
  | .tornDown => c.refuseWrite now.toNat .tornDown
  | .free => (entry.nested.foldl (fun c h => c.turnAway now h.severity) c).conclude now
      entry.heading (entry.message (messageRoom c.geometry.slotBytes)) entry.ending

end Channel

theorem length_area_grown (scratch : Scratch) (g : Geometry) :
    (((scratch.grown g.slotBytes).take g.slotBytes).drop headerSize).length =
      messageRoom g.slotBytes := by
  rw [List.length_drop, List.length_take, Scratch.grown, List.length_append, List.length_replicate,
    messageRoom]
  omega

namespace Thread

/-- A thread whose buffer is free publishes a record with the message that was composed, or counts a
failed write, whatever its buffer held. -/
theorem exists_compose_eq {n : Nat} {t t' : Thread n} {now : UInt64} {h : Heading n}
    {fill : Thread n → Draft → Thread n × Draft × Except WriteFault Unit} {d : Draft}
    {outcome : Except WriteFault Unit} (free : t.scratch.state = .free)
    (accepts : (t.channels.get h.channel).accepts h.severity = true)
    {size : Nat} (size_eq : (t.channels.get h.channel).geometry.slotBytes = size)
    (filled : fill (t.withScratch (t.scratch.grown size) .busy)
      (.blank (((t.scratch.grown size).take size).drop headerSize)) = (t', d, outcome)) :
    ∃ bytes, t.compose now h fill = (t'.withScratch bytes .free).mapChannel h.channel
      (·.conclude now (.solo h.severity h.component) d.message outcome) := by
  have accepts : t.channels[h.channel].accepts h.severity = true := accepts
  have size_eq : t.channels[h.channel].geometry.slotBytes = size := size_eq
  have lt := t.channels[h.channel].geometry.headerSize_lt
  have long : headerSize ≤ (t.scratch.grown size).length := by
    rw [Scratch.grown, List.length_append, List.length_replicate]
    omega
  have composed := take_composed d long now h.severity h.component
  rw [compose]
  simp only [accepts, Bool.not_true, Bool.false_eq_true, if_false, free, size_eq, filled]
  cases outcome with
  | error fault => exact ⟨_, rfl⟩
  | ok done =>
    simp only [composed]
    exact ⟨_, rfl⟩

/-- **What comes of an accepted entry when the thread's buffer is free.** All that its values log
meanwhile is turned away, and then the composed record is published or a failed write is counted. -/
theorem exists_log_eq_of_free {n : Nat} {t : Thread n} (free : t.scratch.state = .free)
    (now : UInt64) (entry : Entry n)
    (accepts : (t.channels.get entry.heading.channel).accepts entry.heading.severity = true)
    {size : Nat} (size_eq : (t.channels.get entry.heading.channel).geometry.slotBytes = size) :
    ∃ bytes, t.log now entry =
      ((entry.nested.foldl (turnAway now) (t.withScratch (t.scratch.grown size) .busy)).withScratch
        bytes .free).mapChannel entry.heading.channel
          (·.conclude now (.solo entry.heading.severity entry.heading.component)
            (entry.message (messageRoom size)) entry.ending) := by
  have area := length_area_grown t.scratch (t.channels.get entry.heading.channel).geometry
  rw [size_eq] at area
  cases entry with
  | bytes h message =>
    obtain ⟨bytes, composed⟩ : ∃ bytes, t.logBytes now h message = _ :=
      exists_compose_eq free accepts size_eq rfl
    rw [Draft.message_addBytes_blank, area] at composed
    exact ⟨bytes, composed⟩
  | formatted h script =>
    obtain ⟨bytes, composed⟩ : ∃ bytes, t.compose now h (script.run now) = _ :=
      exists_compose_eq free accepts size_eq (script.run_of_busy now (.blank _) rfl)
    rw [Draft.message_foldl_addText] at composed
    simp only [Draft.blank, Draft.message, List.take_zero, area] at composed
    exact ⟨bytes, composed⟩

end Thread

namespace Thread

variable {c : Channel}

theorem turnAway_solo (scratch : Scratch) (c : Channel) (now : UInt64) (h : Heading 1) :
    (solo scratch c).turnAway now h = solo scratch (c.turnAway now h.severity) := by
  rw [turnAway, channels_solo, mapChannel_solo, Channel.turnAway]
  split <;> rfl

theorem foldl_turnAway_solo (scratch : Scratch) (now : UInt64) (headings : List (Heading 1))
    (c : Channel) :
    headings.foldl (turnAway now) (solo scratch c) =
      solo scratch (headings.foldl (fun c h => c.turnAway now h.severity) c) := by
  induction headings generalizing c with
  | nil => rfl
  | cons h rest ih => rw [List.foldl_cons, turnAway_solo, ih, List.foldl_cons]

theorem exists_log_eq_write (scratch : Scratch) (now : UInt64) (entry : Entry 1)
    (accepts : c.accepts entry.heading.severity = true) :
    ∃ bytes, (solo scratch c).log now entry =
      solo ⟨bytes, scratch.state⟩ (c.write now entry scratch.state) := by
  obtain ⟨buffer, state⟩ := scratch
  obtain ⟨fill, composed⟩ := (solo ⟨buffer, state⟩ c).exists_log_eq_compose now entry
  cases state with
  | busy =>
    refine ⟨buffer, ?_⟩
    rw [composed, compose_of_busy rfl, turnAway_solo, Channel.turnAway, if_pos accepts]
    rfl
  | tornDown =>
    refine ⟨buffer, ?_⟩
    rw [composed, compose_of_tornDown (by rw [channels_solo, accepts]) rfl, mapChannel_solo]
    rfl
  | free =>
    have here : (solo ⟨buffer, .free⟩ c).channels.get entry.heading.channel = c :=
      channels_solo _ c _
    obtain ⟨bytes, same⟩ := exists_log_eq_of_free (t := solo ⟨buffer, .free⟩ c) rfl now entry
      (by rw [here, accepts]) (by rw [here])
    refine ⟨bytes, same.trans ?_⟩
    rw [withScratch_solo, foldl_turnAway_solo, withScratch_solo, mapChannel_solo]
    rfl

end Thread

namespace Channel

/-- **What a log call comes to.** It leaves the state of the thread's buffer as it finds it, and
what becomes of the channel depends on nothing else of the thread. -/
theorem log_eq (c : Channel) (scratch : Scratch) (now : UInt64) (entry : Entry 1) :
    ∃ bytes, c.log scratch now entry =
      (if c.accepts entry.heading.severity then c.write now entry scratch.state else c,
        ⟨bytes, scratch.state⟩) := by
  have here : (Thread.solo scratch c).channels[entry.heading.channel] = c :=
    Thread.channels_solo scratch c _
  cases accepts : c.accepts entry.heading.severity with
  | false =>
    refine ⟨scratch.bytes, ?_⟩
    rw [log, Thread.log_of_not_accepts entry (by rw [here, accepts])]
    rfl
  | true =>
    obtain ⟨bytes, same⟩ := Thread.exists_log_eq_write scratch now entry accepts
    exact ⟨bytes, by rw [log, same]; rfl⟩

theorem log_of_not_accepts {c : Channel} (scratch : Scratch) (now : UInt64) (entry : Entry 1)
    (refused : c.accepts entry.heading.severity = false) :
    c.log scratch now entry = (c, scratch) := by
  rw [log, Thread.log_of_not_accepts entry (by rw [Thread.channels_solo, refused])]
  rfl

theorem logIfEnabled_eq_log (c : Channel) (scratch : Scratch) (now : UInt64) (entry : Entry 1) :
    c.logIfEnabled scratch now entry = c.log scratch now entry := by
  rw [logIfEnabled, Thread.logIfEnabled_eq_log, log]

/-- **A log call publishes the record that it was given.** The message is cut to the slot; an entry
that is not accepted leaves the channel as it is. -/
theorem log_bytes (c : Channel) (buffer : Bytes) (now : UInt64) (h : Heading 1)
    (message : Bytes) :
    (c.log ⟨buffer, .free⟩ now (.bytes h message)).1 =
      if c.accepts h.severity then
        c.publish (c.geometry.fitted ⟨now, h.severity, h.component, message⟩).encode
      else c := by
  obtain ⟨bytes, same⟩ := c.log_eq ⟨buffer, .free⟩ now (.bytes h message)
  rw [same]
  rfl

/-! What a log call publishes and counts. -/

/-- The record that a log call publishes, if it publishes one. -/
def record? (c : Channel) (state : ScratchState) (now : UInt64) (entry : Entry 1) :
    Option Record :=
  if c.accepts entry.heading.severity then
    entry.record? (messageRoom c.geometry.slotBytes) now state
  else none

theorem eq_of_record? {c : Channel} {state : ScratchState} {now : UInt64} {entry : Entry 1}
    {r : Record} (recorded : c.record? state now entry = some r) :
    r = ⟨now, entry.heading.severity, entry.heading.component,
      entry.message (messageRoom c.geometry.slotBytes)⟩ := by
  unfold record? Entry.record? at recorded
  split at recorded
  · split at recorded
    · exact (Option.some.inj recorded).symm
    · cases recorded
  · cases recorded

/-- How many accepted writes a log call comes to. -/
def attempts (c : Channel) (state : ScratchState) (entry : Entry 1) : Nat :=
  if c.accepts entry.heading.severity then entry.attempts c.accepts state else 0

/-- The channel with a record published, if there is one. -/
def publish? (c : Channel) (r : Option Record) : Channel :=
  r.elim c fun r => c.publish r.encode

/-- The channel with other reports of failed writes. -/
def withReports (c : Channel) (reports : Throttle) (notices : List Notice) : Channel :=
  { c with writeReports := reports, notices }

theorem publish_withReports (c : Channel) (reports : Throttle) (notices : List Notice)
    (encoded : Bytes) :
    (c.withReports reports notices).publish encoded =
      (c.publish encoded).withReports reports notices := by
  unfold publish withReports
  cases c.mode <;> rfl

/-- A write that is given up is counted, and nothing else of the channel is touched. -/
theorem exists_refuseWrite_eq (c : Channel) (now : Nat) (fault : WriteFault) :
    ∃ reports notices, c.refuseWrite now fault = c.withReports reports notices ∧
      reports.total = c.writeReports.total + 1 :=
  ⟨_, _, rfl, Throttle.total_report _ _ _⟩

theorem exists_foldl_turnAway_eq (now : UInt64) (headings : List (Heading 1)) (c : Channel) :
    ∃ reports notices, headings.foldl (fun c h => c.turnAway now h.severity) c =
      c.withReports reports notices ∧
        reports.total = c.writeReports.total + headings.countP fun h => c.accepts h.severity := by
  induction headings generalizing c with
  | nil => exact ⟨_, _, rfl, rfl⟩
  | cons h rest ih =>
    rw [List.foldl_cons, List.countP_cons, turnAway]
    cases accepts : c.accepts h.severity with
    | false =>
      obtain ⟨reports, notices, same, total⟩ := ih c
      exact ⟨reports, notices, same, total⟩
    | true =>
      obtain ⟨first, noted, refused, one⟩ := c.exists_refuseWrite_eq now.toNat .reentrant
      obtain ⟨reports, notices, same, total⟩ := ih (c.withReports first noted)
      rw [if_pos rfl, refused, same]
      have others : (c.withReports first noted).writeReports.total = c.writeReports.total + 1 := one
      have alike : (c.withReports first noted).accepts = c.accepts := rfl
      rw [others, alike] at total
      exact ⟨reports, notices, rfl, by rw [total, if_pos rfl]; omega⟩

/-- **Every accepted write is published or counted as failed.** What comes of an accepted entry is
the record that is published, if there is one; all its other writes are counted as failed, and
nothing else of the channel is changed. -/
theorem exists_write_eq (c : Channel) (now : UInt64) (entry : Entry 1) (state : ScratchState) :
    ∃ reports notices, c.write now entry state =
      (c.publish? (entry.record? (messageRoom c.geometry.slotBytes) now state)).withReports reports
        notices ∧
      (entry.record? (messageRoom c.geometry.slotBytes) now state).toList.length + reports.total =
        c.writeReports.total + entry.attempts c.accepts state := by
  cases state with
  | busy =>
    obtain ⟨reports, notices, refused, one⟩ := c.exists_refuseWrite_eq now.toNat .reentrant
    exact ⟨reports, notices, by rw [write, refused]; rfl, (Nat.zero_add _).trans one⟩
  | tornDown =>
    obtain ⟨reports, notices, refused, one⟩ := c.exists_refuseWrite_eq now.toNat .tornDown
    exact ⟨reports, notices, by rw [write, refused]; rfl, (Nat.zero_add _).trans one⟩
  | free =>
    obtain ⟨first, noted, turned, total⟩ := exists_foldl_turnAway_eq now entry.nested c
    rw [write, turned]
    cases ends : entry.ending with
    | error fault =>
      obtain ⟨reports, notices, refused, one⟩ :=
        (c.withReports first noted).exists_refuseWrite_eq now.toNat fault
      have all : reports.total = first.total + 1 := one
      simp only [Entry.record?, ends, Entry.attempts]
      refine ⟨reports, notices, by rw [conclude, refused]; rfl, ?_⟩
      rw [Option.toList_none, List.length_nil, all, total]
      omega
    | ok done =>
      simp only [Entry.record?, ends, Entry.attempts]
      refine ⟨first, noted, by rw [conclude, publish_withReports]; rfl, ?_⟩
      rw [Option.toList_some, List.length_singleton, total]
      omega

theorem exists_log_eq (c : Channel) (scratch : Scratch) (now : UInt64) (entry : Entry 1) :
    ∃ reports notices bytes, c.log scratch now entry =
      ((c.publish? (c.record? scratch.state now entry)).withReports reports notices,
        ⟨bytes, scratch.state⟩) ∧
      (c.record? scratch.state now entry).toList.length + reports.total =
        c.writeReports.total + c.attempts scratch.state entry := by
  obtain ⟨bytes, same⟩ := c.log_eq scratch now entry
  rw [same, record?, attempts]
  cases c.accepts entry.heading.severity with
  | false => exact ⟨c.writeReports, c.notices, bytes, rfl, Nat.zero_add _⟩
  | true =>
    obtain ⟨reports, notices, written, total⟩ := c.exists_write_eq now entry scratch.state
    rw [if_pos rfl, if_pos rfl, if_pos rfl, written]
    exact ⟨reports, notices, bytes, rfl, total⟩

end Channel

end LogRelay
