/-
# Writing threads

A thread composes every record in a buffer of its own, which it keeps from write to write and grows
when a channel has larger slots. While a message is being formatted the buffer is busy, so an entry
that is logged in the middle of that finds no buffer: it is given up, its own message is not
formatted, and the failure is counted on the channel it was meant for. An entry below the threshold
of its channel, or to a channel that no longer runs, does nothing at all.

A message that cannot be formatted is given up as well: nothing is published, and the failure is
counted once.

Key definitions: `Scratch`, `Thread`, `Thread.compose`, `Script.run`, `Thread.log`,
`Thread.turnAway`, `Channel.log`.
Key theorems: `Thread.compose_of_busy`, `Thread.log_of_not_accepts`, `Thread.logIfEnabled_eq_log`.
-/
import LogRelay.Channel
import LogRelay.Message.Draft
import LogRelay.Message.Script

namespace LogRelay

/-- Whether a thread's buffer can be had. -/
inductive ScratchState
  | free
  /-- A record is being composed. -/
  | busy
  /-- The thread is ending and has given its buffer back. -/
  | tornDown
  deriving DecidableEq, Repr

/-- A thread's buffer, with whatever earlier writes left in it. -/
structure Scratch where
  bytes : Bytes := []
  state : ScratchState := .free
  deriving DecidableEq, Repr

/-- The buffer, grown with zeros to at least `size` bytes. -/
def Scratch.grown (s : Scratch) (size : Nat) : Bytes :=
  s.bytes ++ List.replicate (size - s.bytes.length) 0

/-- A thread and the channels that it writes to. -/
structure Thread (n : Nat) where
  scratch : Scratch
  channels : Vector Channel n

namespace Thread

variable {n : Nat}

/-- A thread that writes to one channel. -/
def solo (scratch : Scratch) (channel : Channel) : Thread 1 := ⟨scratch, #v[channel]⟩

/-- The channel of a thread that writes to one. -/
def channel (t : Thread 1) : Channel := t.channels[0]

/-- Changes one channel. -/
def mapChannel (t : Thread n) (i : Fin n) (f : Channel → Channel) : Thread n :=
  { t with channels := t.channels.set i (f t.channels[i]) }

/-- Leaves `bytes` in the thread's buffer. -/
def withScratch (t : Thread n) (bytes : Bytes) (state : ScratchState) : Thread n :=
  { t with scratch := ⟨bytes, state⟩ }

/-- Composes a record and publishes it. `fill` composes the message: it gets the thread, whose
buffer is busy by then, and the area for the message, and may have used any part of the area when it
gives up. -/
def compose (t : Thread n) (now : UInt64) (h : Heading n)
    (fill : Thread n → Draft → Thread n × Draft × Except WriteFault Unit) : Thread n :=
  let channel := t.channels[h.channel]
  if !channel.accepts h.severity then t
  else
    match t.scratch.state with
    | .busy => t.mapChannel h.channel (·.refuseWrite now.toNat .reentrant)
    | .tornDown => t.mapChannel h.channel (·.refuseWrite now.toNat .tornDown)
    | .free =>
      let size := channel.geometry.slotBytes
      let bytes := t.scratch.grown size
      let (t, draft, outcome) :=
        fill (t.withScratch bytes .busy) (.blank ((bytes.take size).drop headerSize))
      let bytes := overlay headerSize draft.area bytes
      match outcome with
      | .error fault =>
        (t.withScratch bytes .free).mapChannel h.channel (·.refuseWrite now.toNat fault)
      | .ok () =>
        let bytes := overlay 0 (header now h.severity h.component draft.used) bytes
        (t.withScratch bytes .free).mapChannel h.channel
          (·.publish (bytes.take (headerSize + draft.used)))

/-- Logs a message that is given as bytes. -/
def logBytes (t : Thread n) (now : UInt64) (h : Heading n) (message : Bytes) : Thread n :=
  t.compose now h fun t draft => (t, draft.addBytes message, .ok ())

end Thread

/-- Formats a message into a draft. -/
def Script.run {n : Nat} (now : UInt64) :
    Script n → Thread n → Draft → Thread n × Draft × Except WriteFault Unit
  | .done, t, draft => (t, draft, .ok ())
  | .refuses, t, draft => (t, draft, .error .formatting)
  | .panics, t, draft => (t, draft, .error .panicked)
  | .text piece rest, t, draft => rest.run now t (draft.addText piece)
  | .logs h message rest, t, draft => rest.run now (t.logBytes now h message) draft
  | .formats h inner rest, t, draft => rest.run now (t.compose now h (inner.run now)) draft

/-- Logs one entry at the clock reading `now`. -/
def Thread.log {n : Nat} (t : Thread n) (now : UInt64) : Entry n → Thread n
  | .bytes h message => t.logBytes now h message
  | .formatted h script => t.compose now h (script.run now)

/-- Logs one entry if its channel wants it, and looks at nothing else before that is known. -/
def Thread.logIfEnabled {n : Nat} (t : Thread n) (now : UInt64) (entry : Entry n) : Thread n :=
  if t.channels[entry.heading.channel].isEnabled entry.heading.severity then t.log now entry else t

namespace Thread

/-! ### Entries that nothing is composed of -/

variable {n : Nat}

/-- What comes of an entry that is logged while the thread's buffer is busy. -/
def turnAway (now : UInt64) (t : Thread n) (h : Heading n) : Thread n :=
  if t.channels[h.channel].accepts h.severity then
    t.mapChannel h.channel (·.refuseWrite now.toNat .reentrant)
  else t

variable {t : Thread n} {now : UInt64} {h : Heading n}
  {fill : Thread n → Draft → Thread n × Draft × Except WriteFault Unit}

theorem compose_of_not_accepts (refused : t.channels[h.channel].accepts h.severity = false) :
    t.compose now h fill = t := by
  simp only [compose, refused, Bool.not_false, if_true]

theorem compose_of_busy (busy : t.scratch.state = .busy) :
    t.compose now h fill = t.turnAway now h := by
  cases accepts : t.channels[h.channel].accepts h.severity with
  | false => simp only [compose, turnAway, accepts, Bool.not_false, if_true, Bool.false_eq_true,
      if_false]
  | true => simp only [compose, turnAway, accepts, busy, Bool.not_true, Bool.false_eq_true,
      if_false, if_true]

theorem scratch_turnAway (t : Thread n) (now : UInt64) (h : Heading n) :
    (t.turnAway now h).scratch = t.scratch := by
  unfold turnAway
  split <;> rfl

theorem compose_of_tornDown (accepts : t.channels[h.channel].accepts h.severity = true)
    (gone : t.scratch.state = .tornDown) :
    t.compose now h fill = t.mapChannel h.channel (·.refuseWrite now.toNat .tornDown) := by
  simp only [compose, accepts, gone, Bool.not_true, Bool.false_eq_true, if_false]

/-- To log an entry is to compose it under its heading. -/
theorem exists_log_eq_compose (t : Thread n) (now : UInt64) (entry : Entry n) :
    ∃ fill, t.log now entry = t.compose now entry.heading fill := by
  cases entry with
  | bytes h message => exact ⟨fun t draft => (t, draft.addBytes message, .ok ()), rfl⟩
  | formatted h script => exact ⟨script.run now, rfl⟩

/-- **An entry that is not accepted changes nothing at all.** Neither its channel nor any other
channel that its message would log to is touched, whatever formatting the message would do. -/
theorem log_of_not_accepts (entry : Entry n)
    (refused : t.channels[entry.heading.channel].accepts entry.heading.severity = false) :
    t.log now entry = t := by
  obtain ⟨fill, composed⟩ := t.exists_log_eq_compose now entry
  rw [composed]
  exact compose_of_not_accepts refused

/-- To ask first whether an entry is wanted makes no difference. -/
theorem logIfEnabled_eq_log (t : Thread n) (now : UInt64) (entry : Entry n) :
    t.logIfEnabled now entry = t.log now entry := by
  cases enabled : t.channels[entry.heading.channel].isEnabled entry.heading.severity with
  | true => simp only [logIfEnabled, enabled, if_true]
  | false =>
    rw [log_of_not_accepts entry (by rw [Channel.accepts, enabled, Bool.false_and])]
    simp only [logIfEnabled, enabled, Bool.false_eq_true, if_false]

end Thread

/-! ### One channel -/

/-- Logs one entry to a channel from a thread with the given buffer. -/
def Channel.log (c : Channel) (scratch : Scratch) (now : UInt64) (entry : Entry 1) :
    Channel × Scratch :=
  let t := (Thread.solo scratch c).log now entry
  (t.channel, t.scratch)

/-- The same, if the channel wants the entry. -/
def Channel.logIfEnabled (c : Channel) (scratch : Scratch) (now : UInt64) (entry : Entry 1) :
    Channel × Scratch :=
  let t := (Thread.solo scratch c).logIfEnabled now entry
  (t.channel, t.scratch)

end LogRelay
