/-
# Writers that publish at the same time

Any number of threads may publish into one ring. A publication is a sequence of shared accesses: it
claims a sequence number, gives up the oldest unread record if the ring is full, waits until the
slot's previous writer is done, writes the slot between two stamps, waits until all earlier
sequences are visible, and makes its own visible. Between any two accesses other writers may take
theirs.

A race is a ring with its writers, each with the records it still has to publish. `Race.step` lets
one writer make one access; it is refused while that writer has to wait. `Race.finish` lets the
writers take turns until all records are published.

Key definitions: `Stage`, `Ring.access`, `Writer`, `Race`, `Race.step`, `Race.finish`.
-/
import LogRelay.Ring.Basic

namespace LogRelay

/-- How far a publication is: the access that it makes next. -/
inductive Stage
  /-- Claims a sequence number. -/
  | claiming
  /-- Looks at the consumed cursor to see whether the ring is full. -/
  | checking (seq : Nat)
  /-- Gives up the oldest unread record. -/
  | givingUp (seq : Nat)
  /-- Counts the record given up. -/
  | counting (seq : Nat)
  /-- Waits for the previous writer of the slot. -/
  | awaitingSlot (seq : Nat)
  /-- Marks the slot as being written. -/
  | beginning (seq : Nat)
  /-- Copies the record. -/
  | copying (seq : Nat)
  /-- Marks the slot as written. -/
  | ending (seq : Nat)
  /-- Waits for all earlier sequences to be visible. -/
  | awaitingTurn (seq : Nat)
  /-- Makes the sequence visible. -/
  | revealing (seq : Nat)
  /-- Nothing is left to do. -/
  | done (seq : Nat)
  deriving DecidableEq, Repr

/-- The sequence number of a publication, once it has one. -/
def Stage.sequence? : Stage → Option Nat
  | claiming => none
  | checking seq | givingUp seq | counting seq | awaitingSlot seq | beginning seq | copying seq
  | ending seq | awaitingTurn seq | revealing seq | done seq => some seq

namespace Ring

variable {g : Geometry}

/-- The published cursor that a writer of `seq` waits for before it touches the slot: its previous
writer is done then. -/
def slotFreeAt (_ : Ring g) (seq : Nat) : Nat := seq + 1 - g.slotCount

/-- Makes the next access of a publication of `encoded`; nothing happens while it has to wait and
when it is done. -/
def access (ring : Ring g) (encoded : Bytes) : Stage → Option (Ring g × Stage)
  | .claiming => some (ring.claim, .checking ring.claimed)
  | .checking seq =>
    some (ring, if ring.IsFullFor seq then .givingUp seq else .awaitingSlot seq)
  | .givingUp seq => some (ring.giveUp seq, .counting seq)
  | .counting seq => some (ring.countOverflow, .awaitingSlot seq)
  | .awaitingSlot seq =>
    if ring.slotFreeAt seq ≤ ring.published then some (ring, .beginning seq) else none
  | .beginning seq => some (ring.beginWrite seq, .copying seq)
  | .copying seq => some (ring.copyIn seq encoded, .ending seq)
  | .ending seq => some (ring.endWrite seq, .awaitingTurn seq)
  | .awaitingTurn seq => if seq ≤ ring.published then some (ring, .revealing seq) else none
  | .revealing seq => some (ring.reveal seq, .done seq)
  | .done _ => none

end Ring

/-- A thread and the records it has to publish, the one it is at in front. -/
structure Writer where
  pending : List Bytes
  stage : Stage := .claiming
  deriving DecidableEq, Repr

/-- A ring and its writers. -/
structure Race (g : Geometry) where
  ring : Ring g
  writers : List Writer

namespace Writer

/-- One access of a writer, if it can make one. After its last access it goes on to its next
record. -/
def step {g : Geometry} (w : Writer) (ring : Ring g) : Option (Ring g × Writer) :=
  match w.pending with
  | [] => none
  | encoded :: rest =>
    match ring.access encoded w.stage with
    | none => none
    | some (ring, .done _) => some (ring, ⟨rest, .claiming⟩)
    | some (ring, stage) => some (ring, { w with stage := stage })

end Writer

namespace Race

variable {g : Geometry}

/-- One access of writer number `i`, if it can make one. -/
def step (race : Race g) (i : Nat) : Option (Race g) :=
  match race.writers[i]? with
  | none => none
  | some w => (w.step race.ring).map fun (ring, w) => ⟨ring, race.writers.set i w⟩

/-- Lets each of the listed writers in turn make one access if it can. -/
def turn (race : Race g) : List Nat → Race g
  | [] => race
  | i :: rest => ((race.step i).getD race).turn rest

/-- Whether all records are published. -/
def isDone (race : Race g) : Bool := race.writers.all fun w => w.pending.isEmpty

/-- Lets the writers take turns, at most `rounds` times. -/
def rounds (race : Race g) : Nat → Race g
  | 0 => race
  | n + 1 =>
    if race.isDone then race else (race.turn (List.range race.writers.length)).rounds n

/-- How many records are not published yet. -/
def pendingCount (race : Race g) : Nat := race.writers.foldl (fun n w => n + w.pending.length) 0

/-- A publication makes at most this many accesses. -/
def accessesPerRecord : Nat := 10

/-- Lets the writers take turns until all records are published. In every round some writer makes
an access, so as many rounds as there are accesses are enough. -/
def finish (race : Race g) : Race g :=
  race.rounds (accessesPerRecord * race.pendingCount)

end Race

/-- Publishes several lists of records, each from a thread of its own. -/
def Ring.publishAtOnce {g : Geometry} (ring : Ring g) (lists : List (List Bytes)) : Ring g :=
  (Race.finish ⟨ring, lists.map fun records => ⟨records, .claiming⟩⟩).ring

end LogRelay
