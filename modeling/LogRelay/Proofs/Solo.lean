/-
# One writer at a time

A writer claims its sequence, moves the consumed cursor to a position if the ring is full, waits for
the previous writer of its slot and waits for its turn. A writer that is known to be alone does
without: its sequence is the published cursor, and if the ring is full it moves the consumed cursor
by one. As long as no two publications overlap nobody can tell the two ways apart. Whatever is
published, committed, read and drained, the replies are the same, and so are the cursors, the count
of losses, the stamps and the bytes of the slots after every request; and a writer that claims is
never made to wait.

Two facts about the cursors carry this, and every request keeps them: no sequence is claimed that is
not published, and the published cursor is at most one round ahead of the consumed one. That the
consumed cursor is not ahead of the published one, as in `Ring.Within`, cannot be had here, for the
reader may commit sequences that nobody published yet.

Sequence numbers are natural numbers here. The words of 64 bits that hold them do not wrap before
2 ^ 64 publications, and a commit moves a cursor but does no arithmetic on it.

Key definitions: `Ring.Solo`, `RingRequest`, `Ring.serve`, `Exchange`, `Ring.trace`, `Ring.accesses`,
`Exchange.Unhindered`.
Key theorems: `Ring.Solo.serve`, `Ring.Solo.accesses_publish`, `Ring.trace_alike`.
-/
import LogRelay.Proofs.Retention
import LogRelay.Ring.Race

namespace LogRelay

/-! ### Requests -/

/-- What a ring is asked for while nothing else is going on. In which way a record is published is
left open. -/
inductive RingRequest
  /-- Publishes an encoded record. -/
  | publish (encoded : Bytes)
  /-- Marks everything below `next` as consumed, published or not. -/
  | commit (next : Nat)
  /-- Reads a sequence into a buffer of `extra` bytes more than a slot has. -/
  | read (seq extra : Nat)
  /-- Reads and commits everything unread, with such a buffer. -/
  | drain (extra : Nat)
  deriving DecidableEq, Repr

/-- What a ring replies. -/
inductive RingReply
  | sequence (seq : Nat)
  | nothing
  | reading (found : Ring.Reading)
  | readings (found : List Ring.Reading)
  deriving DecidableEq, Repr

/-- A request and its reply: the ring that the request found and the ring that it left. -/
structure Exchange (g : Geometry) where
  before : Ring g
  request : RingRequest
  reply : RingReply
  after : Ring g

namespace Ring

variable {g : Geometry}

/-- Serves a request; a record is published in the way of `mode`. -/
def serve (mode : WriterMode) (ring : Ring g) : RingRequest → RingReply × Ring g
  | .publish encoded =>
    let (seq, ring) := ring.publishBy mode encoded
    (.sequence seq, ring)
  | .commit next => (.nothing, ring.commit next)
  | .read seq extra => (.reading (ring.read seq (g.slotBytes + extra)), ring)
  | .drain extra =>
    let (found, ring) := ring.drain (g.slotBytes + extra)
    (.readings found, ring)

/-- Serves requests one after the other, request number `i` in the way of `modes i`. -/
def trace (ring : Ring g) (modes : Nat → WriterMode) : List RingRequest → List (Exchange g)
  | [] => []
  | request :: rest =>
    let (reply, after) := ring.serve (modes 0) request
    ⟨ring, request, reply, after⟩ :: after.trace (fun i => modes (i + 1)) rest

/-- The next `count` accesses of a publication of `encoded`, if none of them has to wait. -/
def accesses (ring : Ring g) (encoded : Bytes) (stage : Stage) : Nat → Option (Ring g × Stage)
  | 0 => some (ring, stage)
  | count + 1 =>
    (ring.access encoded stage).bind fun next => next.1.accesses encoded next.2 count

end Ring

/-- If the request was to publish, a writer that claims its sequence makes all accesses of the
publication without a wait, and gives the same reply and the same ring. -/
def Exchange.Unhindered {g : Geometry} (e : Exchange g) : Prop :=
  ∀ encoded, e.request = .publish encoded → ∃ seq count, e.reply = .sequence seq ∧
    count ≤ Race.accessesPerRecord ∧
      e.before.accesses encoded .claiming count = some (e.after, .done seq)

namespace Ring

variable {g : Geometry} {ring : Ring g}

/-! ### The cursors between two requests -/

/-- **The invariant.** Nothing is under way, and the published cursor is at most one round ahead of
the consumed one. -/
structure Solo (ring : Ring g) : Prop where
  claimed_eq : ring.claimed = ring.published
  published_le : ring.published ≤ ring.consumed + g.slotCount

namespace Solo

theorem empty (g : Geometry) : (Ring.empty g).Solo := ⟨rfl, Nat.zero_le _⟩

theorem publishBy_eq (h : ring.Solo) (mode : WriterMode) (encoded : Bytes) :
    ring.publishBy mode encoded = ring.publish encoded :=
  publishBy_eq_publish h.claimed_eq h.published_le mode encoded

theorem publish (h : ring.Solo) (encoded : Bytes) : (ring.publish encoded).2.Solo := by
  have window := h.published_le
  refine ⟨?_, ?_⟩
  · rw [claimed_publish, published_publish]
  · rw [consumed_publish, published_publish, h.claimed_eq]
    omega

/-- A commit only moves the consumed cursor forward, be it beyond the published one. -/
theorem commit (h : ring.Solo) (next : Nat) : (ring.commit next).Solo where
  claimed_eq := h.claimed_eq
  published_le := by
    have window := h.published_le
    have forward := Cursor.le_raise ring.consumed next
    simp only [Ring.commit]
    omega

theorem readFrom (room : Nat) : ∀ (count seq : Nat) {ring : Ring g}, ring.Solo →
    (ring.readFrom seq room count).2.Solo
  | 0, _, _, h => h
  | count + 1, seq, _, h => readFrom room count (seq + 1) (h.commit (seq + 1))

theorem serve (h : ring.Solo) (mode : WriterMode) (request : RingRequest) :
    (ring.serve mode request).2.Solo := by
  cases request with
  | publish encoded =>
    rw [Ring.serve, h.publishBy_eq mode encoded]
    exact h.publish encoded
  | commit next => exact h.commit next
  | read seq extra => exact h
  | drain extra => exact readFrom _ _ _ h

theorem serve_eq (h : ring.Solo) (mode mode' : WriterMode) (request : RingRequest) :
    ring.serve mode request = ring.serve mode' request := by
  cases request with
  | publish encoded =>
    rw [Ring.serve, Ring.serve, h.publishBy_eq mode encoded, h.publishBy_eq mode' encoded]
  | commit next => rfl
  | read seq extra => rfl
  | drain extra => rfl

theorem trace_eq (modes modes' : Nat → WriterMode) : ∀ (requests : List RingRequest)
    {ring : Ring g}, ring.Solo → ring.trace modes requests = ring.trace modes' requests
  | [], _, _ => rfl
  | request :: rest, ring, h => by
    have tails := trace_eq (fun i => modes (i + 1)) (fun i => modes' (i + 1)) rest
      (h.serve (modes' 0) request)
    rw [trace, trace, h.serve_eq (modes 0) (modes' 0) request]
    exact congrArg (_ :: ·) tails

end Solo

/-! ### A claimed publication that is alone -/

/-- A writer whose sequence is the next to become visible writes its slot and reveals it: six
accesses, and both waits let it through. -/
theorem accesses_awaitingSlot {seq : Nat} (first : ring.published = seq) (encoded : Bytes) :
    ring.accesses encoded (.awaitingSlot seq) 6 =
      some ((ring.writeSlot seq encoded).reveal seq, .done seq) := by
  have pos := g.slotCount_pos
  have free : ring.slotFreeAt seq ≤ ring.published := by
    rw [slotFreeAt, first]
    omega
  have turn : seq ≤ (ring.writeSlot seq encoded).published := Nat.le_of_eq first.symm
  rw [writeSlot] at turn
  simp only [accesses, access, if_pos free, Option.bind_some, if_pos turn, writeSlot]

/-- Alone, a writer makes all accesses of a publication one after the other. -/
theorem Solo.accesses_publish (h : ring.Solo) (encoded : Bytes) :
    ∃ count ≤ Race.accessesPerRecord, ring.accesses encoded .claiming count =
      some ((ring.publish encoded).2, .done ring.claimed) := by
  by_cases full : ring.IsFullFor ring.claimed
  · -- the oldest unread record is given up on the way
    have claim : ring.claim.IsFullFor ring.claimed := full
    have first : ((ring.claim.giveUp ring.claimed).countOverflow).published = ring.claimed :=
      h.claimed_eq.symm
    refine ⟨10, Nat.le_refl _, ?_⟩
    rw [publish_of_full full, ← accesses_awaitingSlot first encoded]
    simp only [accesses, access, Option.bind_some, if_pos claim]
  · have claim : ¬ ring.claim.IsFullFor ring.claimed := full
    have first : ring.claim.published = ring.claimed := h.claimed_eq.symm
    refine ⟨8, by decide, ?_⟩
    rw [publish_of_room full, ← accesses_awaitingSlot first encoded]
    simp only [accesses, access, Option.bind_some, if_neg claim]

theorem Solo.unhindered (h : ring.Solo) (mode : WriterMode) (request : RingRequest) :
    Exchange.Unhindered ⟨ring, request, (ring.serve mode request).1,
      (ring.serve mode request).2⟩ := by
  intro encoded asked
  dsimp only at asked
  subst asked
  obtain ⟨count, few, reached⟩ := h.accesses_publish encoded
  refine ⟨ring.claimed, count, ?_, few, ?_⟩
  · rw [Ring.serve, h.publishBy_eq mode encoded]
    rfl
  · rw [Ring.serve, h.publishBy_eq mode encoded]
    exact reached

theorem Solo.unhindered_of_mem : ∀ (requests : List RingRequest) (modes : Nat → WriterMode)
    {ring : Ring g}, ring.Solo → ∀ e ∈ ring.trace modes requests, e.Unhindered
  | [], _, _, _, _, here => absurd here List.not_mem_nil
  | request :: rest, modes, ring, h, e, here => by
    rw [trace, List.mem_cons] at here
    rcases here with rfl | later
    · exact h.unhindered (modes 0) request
    · exact unhindered_of_mem rest _ (h.serve (modes 0) request) e later

/-! ### Requests to a new ring -/

/-- **Claimed or alone, nobody can tell.** Whatever is asked of a new ring, one request after the
other, any of its publications may be made in either way: each request is replied to in the same
way and leaves the same ring, all cursors, counts, stamps and bytes. No publication has to wait. -/
theorem trace_alike (g : Geometry) (requests : List RingRequest) (modes modes' : Nat → WriterMode) :
    (empty g).trace modes requests = (empty g).trace modes' requests ∧
      ∀ e ∈ (empty g).trace modes requests, e.Unhindered := by
  have solo := Solo.empty g
  refine ⟨solo.trace_eq modes modes' requests, ?_⟩
  exact solo.unhindered_of_mem requests modes

/-- What is committed before it is published is not drained. -/
example : ((empty Geometry.twoSlots).trace (fun _ => .single)
    [.publish [], .commit 5, .publish [], .drain 0]).map Exchange.reply =
      [.sequence 0, .nothing, .sequence 1, .readings []] := by decide

end Ring

end LogRelay
