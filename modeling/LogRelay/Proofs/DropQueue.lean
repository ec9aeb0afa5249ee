/-
# The ring is a queue that gives up its front

Seen from outside, a ring of `n` slots whose writers and reader do not overlap is a queue with room
for `n` records: a record that is published when `n` are unread pushes out the oldest of them, and
whoever consumes gets the oldest that is left, its message cut to the slot. `Follows` ties the
cursors of a ring to such a queue, without looking into the slots; `Ring.Keeps` says what is in
them.

Sequence numbers are natural numbers here. The words of 64 bits that hold them do not wrap before
2 ^ 64 publications.

Key definitions: `DropQueue`, `Follows`, `RingCall`, `Ring.callAll`, `DropQueue.callAll`,
`Represents`.
Key theorems: `Follows.publish`, `Follows.take`, `represents_callAll`.
-/
import LogRelay.Proofs.Retention
import Mathlib.Data.List.Forall2

namespace LogRelay

/-! ### The queue -/

/-- A queue that gives up its front when an item comes for which there is no room. -/
structure DropQueue (α : Type) where
  /-- The items that wait, the oldest in front. -/
  waiting : List α := []
  /-- The items that were taken from the front, the first one in front. -/
  taken : List α := []
  /-- The items that were given up, the first one in front. -/
  discarded : List α := []
  /-- How many items were put in. -/
  pushed : Nat := 0
  deriving DecidableEq, Repr

namespace DropQueue

variable {α : Type}

/-- Puts an item behind those that wait. If `capacity` items wait the oldest is given up. -/
def push (capacity : Nat) (q : DropQueue α) (a : α) : DropQueue α :=
  if q.waiting.length < capacity then
    { q with waiting := q.waiting ++ [a], pushed := q.pushed + 1 }
  else
    { q with
      waiting := q.waiting.tail ++ [a]
      discarded := q.discarded ++ q.waiting.head?.toList
      pushed := q.pushed + 1 }

/-- Takes the oldest item that waits. -/
def take (q : DropQueue α) : Option α × DropQueue α :=
  match q.waiting with
  | [] => (none, q)
  | a :: rest => (some a, { q with waiting := rest, taken := q.taken ++ [a] })

/-- Taking moves an item, the oldest that waits. -/
theorem taken_append_waiting_take (q : DropQueue α) :
    q.take.2.taken ++ q.take.2.waiting = q.taken ++ q.waiting := by
  unfold take
  split
  · rfl
  · next a rest front => rw [front, List.append_assoc, List.singleton_append]

theorem length_waiting_take (q : DropQueue α) :
    q.take.2.waiting.length = q.waiting.length - 1 := by
  unfold take
  split
  · next front => rw [front]; rfl
  · next a rest front => rw [front, List.length_cons, Nat.add_sub_cancel]

theorem taken_push (capacity : Nat) (q : DropQueue α) (a : α) :
    (q.push capacity a).taken = q.taken := by
  unfold push
  split <;> rfl

end DropQueue

/-! ### Cursors and queue -/

variable {g : Geometry} {α : Type}

/-- The cursors of a ring stand where a queue over the items of `log` has come to: the items before
the consumed cursor were taken or given up, the others wait, and every loss is counted. -/
structure Follows (ring : Ring g) (log : List α) (q : DropQueue α) : Prop where
  length : log.length = ring.published
  within : ring.Within
  waiting : q.waiting = log.drop ring.consumed
  pushed : q.pushed = ring.published
  discarded : q.discarded.length = ring.overflowed
  consumed : q.discarded.length + q.taken.length = ring.consumed

namespace Follows

variable {ring : Ring g} {log : List α} {q : DropQueue α}

theorem empty (g : Geometry) : Follows (Ring.empty g) ([] : List α) {} :=
  ⟨rfl, Ring.within_empty g, rfl, rfl, rfl, rfl⟩

theorem length_waiting (h : Follows ring log q) :
    q.waiting.length = ring.published - ring.consumed := by
  rw [h.waiting, List.length_drop, h.length]

theorem publish (h : Follows ring log q) (encoded : Bytes) (a : α) :
    Follows (ring.publish encoded).2 (log ++ [a]) (q.push g.slotCount a) := by
  obtain ⟨claimed, lower, upper⟩ := h.within
  have pos := g.slotCount_pos
  have count := h.length_waiting
  have length : (log ++ [a]).length = ring.published + 1 := by
    rw [List.length_append, h.length]; rfl
  by_cases full : g.slotCount ≤ ring.published - ring.consumed
  · -- the oldest unread item makes room
    obtain ⟨x, rest, front⟩ : ∃ x rest, log.drop ring.consumed = x :: rest :=
      List.exists_cons_of_length_pos (by rw [← h.waiting]; omega)
    have moved : (ring.publish encoded).2.consumed = ring.consumed + 1 := by
      rw [Ring.consumed_publish]; omega
    have counted : (ring.publish encoded).2.overflowed = ring.overflowed + 1 := by
      rw [Ring.overflowed_publish, claimed, if_pos full]
    have tail : rest = log.drop (ring.consumed + 1) := by
      rw [← List.drop_drop, front, List.drop_one, List.tail_cons]
    have waiting : q.waiting = x :: rest := h.waiting.trans front
    have noRoom : ¬ q.waiting.length < g.slotCount := by omega
    have inside : ring.consumed + 1 ≤ log.length := by rw [h.length]; omega
    refine ⟨?_, h.within.publish encoded, ?_, ?_, ?_, ?_⟩
    · rw [length, Ring.published_publish, claimed]
    · rw [moved, DropQueue.push, if_neg noRoom, waiting, List.tail_cons, tail,
        List.drop_append_of_le_length inside]
    · rw [Ring.published_publish, claimed, DropQueue.push, if_neg noRoom, h.pushed]
    · rw [counted, DropQueue.push, if_neg noRoom, waiting, List.length_append, h.discarded]
      rfl
    · rw [moved, DropQueue.push, if_neg noRoom, waiting, List.length_append, ← h.consumed]
      simp only [List.head?_cons, Option.toList_some, List.length_singleton]
      omega
  · have moved : (ring.publish encoded).2.consumed = ring.consumed := by
      rw [Ring.consumed_publish]; omega
    have counted : (ring.publish encoded).2.overflowed = ring.overflowed := by
      rw [Ring.overflowed_publish, claimed, if_neg full, Nat.add_zero]
    have room : q.waiting.length < g.slotCount := by omega
    have inside : ring.consumed ≤ log.length := by rw [h.length]; omega
    refine ⟨?_, h.within.publish encoded, ?_, ?_, ?_, ?_⟩
    · rw [length, Ring.published_publish, claimed]
    · rw [moved, DropQueue.push, if_pos room, h.waiting,
        List.drop_append_of_le_length inside]
    · rw [Ring.published_publish, claimed, DropQueue.push, if_pos room, h.pushed]
    · rw [counted, DropQueue.push, if_pos room, h.discarded]
    · rw [moved, DropQueue.push, if_pos room, h.consumed]

/-- As long as something is unread, it is the front of the queue. -/
theorem take_eq (h : Follows ring log q) (lt : ring.consumed < log.length) :
    q.take = (some log[ring.consumed], { q with
      waiting := log.drop (ring.consumed + 1)
      taken := q.taken ++ [log[ring.consumed]] }) := by
  have waiting := h.waiting
  rw [List.drop_eq_getElem_cons lt] at waiting
  rw [DropQueue.take, waiting]

theorem take (h : Follows ring log q) (lt : ring.consumed < ring.published) :
    Follows (ring.commit (ring.consumed + 1)) log q.take.2 := by
  have moved : (ring.commit (ring.consumed + 1)).consumed = ring.consumed + 1 :=
    Nat.max_eq_right (Nat.le_succ _)
  rw [h.take_eq (h.length ▸ lt)]
  refine ⟨h.length, h.within.commit lt, ?_, h.pushed, h.discarded, ?_⟩
  · rw [moved]
  · rw [moved, List.length_append, ← Nat.add_assoc, h.consumed]
    rfl

theorem take_of_le (h : Follows ring log q) (le : ring.published ≤ ring.consumed) :
    q.take = (none, q) := by
  have waiting := h.waiting
  rw [List.drop_eq_nil_of_le (h.length ▸ le)] at waiting
  rw [DropQueue.take, waiting]

end Follows

/-! ### Calls -/

/-- A call of a ring that no other call overlaps. -/
inductive RingCall
  /-- A writer of a mode publishes a record. -/
  | publish (mode : WriterMode) (r : Record)
  /-- The reader reads the oldest unread sequence and commits it, if there is one. -/
  | consume

/-- What a call of a ring returns. -/
inductive RingAnswer
  | sequence (seq : Nat)
  | reading (found : Ring.Reading)
  | nothing

/-- What a call of a queue of records returns. -/
inductive QueueAnswer
  /-- How many records were pushed before. -/
  | position (n : Nat)
  | front (r : Record)
  | nothing

/-- A call of a ring, made with a buffer of `extra` bytes more than a slot has. -/
def Ring.call (extra : Nat) (ring : Ring g) : RingCall → RingAnswer × Ring g
  | .publish mode r =>
    let (seq, ring) := ring.publishBy mode r.encode
    (.sequence seq, ring)
  | .consume =>
    if ring.consumed < ring.published then
      (.reading (ring.read ring.consumed (g.slotBytes + extra)), ring.commit (ring.consumed + 1))
    else (.nothing, ring)

/-- The same call of a queue. -/
def DropQueue.call (capacity : Nat) (q : DropQueue Record) :
    RingCall → QueueAnswer × DropQueue Record
  | .publish _ r => (.position q.pushed, q.push capacity r)
  | .consume =>
    match q.take with
    | (some r, q) => (.front r, q)
    | (none, q) => (.nothing, q)

/-- Calls of a ring, one after the other. -/
def Ring.callAll (extra : Nat) (ring : Ring g) : List RingCall → List RingAnswer × Ring g
  | [] => ([], ring)
  | c :: rest =>
    let (answer, ring) := ring.call extra c
    let (answers, ring) := callAll extra ring rest
    (answer :: answers, ring)

/-- The same calls of a queue. -/
def DropQueue.callAll (capacity : Nat) (q : DropQueue Record) :
    List RingCall → List QueueAnswer × DropQueue Record
  | [] => ([], q)
  | c :: rest =>
    let (answer, q) := q.call capacity c
    let (answers, q) := callAll capacity q rest
    (answer :: answers, q)

/-- What a ring returns says the same as what a queue returns: the same count, or bytes that decode
to the front of the queue with its message cut to the slot. -/
inductive Agrees (g : Geometry) : RingAnswer → QueueAnswer → Prop
  | position (n : Nat) : Agrees g (.sequence n) (.position n)
  | front {r : Record} {bytes : Bytes} (h : Frame.decode bytes = .ok ⟨g.fitted r, bytes⟩) :
      Agrees g (.reading (.ready bytes)) (.front r)
  | nothing : Agrees g .nothing .nothing

/-- The ring stands for the queue: its unread sequences are the items that wait, in order, and its
counts are those of the queue. -/
structure Represents (ring : Ring g) (q : DropQueue Record) : Prop where
  claimed : ring.claimed = ring.published
  consumed_le : ring.consumed ≤ ring.published
  unread_le : ring.published - ring.consumed ≤ g.slotCount
  length_waiting : q.waiting.length = ring.published - ring.consumed
  unread : ∀ i (h : i < q.waiting.length) (extra : Nat), ∃ bytes,
    ring.read (ring.consumed + i) (g.slotBytes + extra) = .ready bytes ∧
      Frame.decode bytes = .ok ⟨g.fitted q.waiting[i], bytes⟩
  published : ring.published = q.pushed
  overflowed : ring.overflowed = q.discarded.length
  consumed : ring.consumed = q.discarded.length + q.taken.length

variable {ring : Ring g} {log : List Record} {q : DropQueue Record}

/-- What is unread is read as it was published, its message cut to the slot. -/
theorem read_unread (keeps : ring.Keeps (log.map Record.encode)) (within : ring.Within) {s : Nat}
    (unread : ring.consumed ≤ s) (lt : s < log.length) (extra : Nat) :
    ring.read s (g.slotBytes + extra) = .ready (g.fitted log[s]).encode := by
  have published := keeps.published
  have window := within.published_le
  rw [List.length_map] at published
  have held := keeps.holds s (by rwa [List.length_map]) (by rw [List.length_map]; omega)
  rw [List.getElem_map] at held
  exact Ring.read_of_holds held (Nat.le_add_right _ _)

theorem represents_of_follows (keeps : ring.Keeps (log.map Record.encode))
    (h : Follows ring log q) : Represents ring q := by
  obtain ⟨claimed, lower, upper⟩ := h.within
  refine ⟨claimed, lower, by omega, h.length_waiting, ?_, h.pushed.symm, h.discarded.symm,
    h.consumed.symm⟩
  intro i inside extra
  have lt : ring.consumed + i < log.length := by
    rw [h.length_waiting] at inside
    rw [h.length]; omega
  refine ⟨_, read_unread keeps h.within (Nat.le_add_right _ _) lt extra, ?_⟩
  have item : q.waiting[i] = log[ring.consumed + i] := by
    simp only [h.waiting, List.getElem_drop]
  rw [item]
  exact Frame.decode_encode (g.length_fitted_le _)

/-- One call: the ring answers as the queue does and goes on standing for it. -/
theorem agrees_call (keeps : ring.Keeps (log.map Record.encode)) (h : Follows ring log q)
    (extra : Nat) (c : RingCall) :
    Agrees g (ring.call extra c).1 (q.call g.slotCount c).1 ∧
      ∃ log', (ring.call extra c).2.Keeps (log'.map Record.encode) ∧
        Follows (ring.call extra c).2 log' (q.call g.slotCount c).2 := by
  cases c with
  | publish mode r =>
    rw [Ring.call, DropQueue.call, h.within.publishBy_eq, h.pushed, ← h.within.claimed_eq]
    refine ⟨.position _, log ++ [r], ?_, h.publish r.encode r⟩
    rw [List.map_append]
    exact keeps.publish r.encode
  | consume =>
    by_cases lt : ring.consumed < ring.published
    · have taken := h.take lt
      rw [Ring.call, DropQueue.call, if_pos lt]
      rw [h.take_eq (h.length ▸ lt)] at taken ⊢
      refine ⟨?_, log, keeps.commit _, taken⟩
      rw [read_unread keeps h.within (Nat.le_refl _) (h.length ▸ lt)]
      exact .front (Frame.decode_encode (g.length_fitted_le _))
    · rw [Ring.call, DropQueue.call, if_neg lt, h.take_of_le (Nat.not_lt.1 lt)]
      exact ⟨.nothing, log, keeps, h⟩

theorem agrees_callAll (extra : Nat) : ∀ (calls : List RingCall) {ring : Ring g}
    {log : List Record} {q : DropQueue Record}, ring.Keeps (log.map Record.encode) →
      Follows ring log q →
        List.Forall₂ (Agrees g) (ring.callAll extra calls).1 (q.callAll g.slotCount calls).1 ∧
          Represents (ring.callAll extra calls).2 (q.callAll g.slotCount calls).2
  | [], _, _, _, keeps, h => ⟨.nil, represents_of_follows keeps h⟩
  | c :: rest, _, _, _, keeps, h => by
    obtain ⟨agrees, _, keeps', h'⟩ := agrees_call keeps h extra c
    obtain ⟨answers, final⟩ := agrees_callAll extra rest keeps' h'
    exact ⟨.cons agrees answers, final⟩

/-- **The ring is a queue that gives up its front.** Whatever records are published, in either mode,
and whenever the reader consumes one, an empty ring answers as an empty queue with room for as many
records as the ring has slots, and stands for that queue afterwards. -/
theorem represents_callAll (g : Geometry) (extra : Nat) (calls : List RingCall) :
    List.Forall₂ (Agrees g) ((Ring.empty g).callAll extra calls).1
        (({} : DropQueue Record).callAll g.slotCount calls).1 ∧
      Represents ((Ring.empty g).callAll extra calls).2
        (({} : DropQueue Record).callAll g.slotCount calls).2 :=
  have keeps : (Ring.empty g).Keeps (([] : List Record).map Record.encode) := Ring.keeps_empty g
  agrees_callAll extra calls keeps (Follows.empty g)

example : ((Ring.empty ⟨2, 16, by decide, by decide, by decide, by decide⟩).callAll 0
    [.publish .claimed ⟨1, .info, 0, [65, 66, 67]⟩, .publish .single ⟨2, .info, 0, [68]⟩,
      .publish .claimed ⟨3, .info, 0, []⟩, .consume]).2.overflowed = 1 := by decide

end LogRelay
