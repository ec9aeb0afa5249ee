/-
# Settings

Everything that a relay is started with. `Settings.check` lets settings pass, or names their first
fault in the order in which they are listed. A change of the slot size is checked at once, every
other change when the relay is started. Settings that pass may still ask for a ring that is too
large to be made (`Geometry.build`).

Key definitions: `Settings`, `Settings.check`, `Settings.ofSlotCount`, `Settings.withSlotBytes`,
`WriterMode`.
Key theorem: `Settings.geometry_of_check`.
-/
import LogRelay.Duration
import LogRelay.Failure
import LogRelay.Ring.Geometry

namespace LogRelay

/-- How writers share the ring. -/
inductive WriterMode
  /-- The caller sees to it that writes never overlap. -/
  | single
  /-- Every write claims its place first, so any number of threads may write. -/
  | claimed
  deriving DecidableEq, Repr

/-- The name of a mode. -/
def WriterMode.name : WriterMode → String
  | single => "Single"
  | claimed => "Claimed"

/-- What a relay is started with. -/
structure Settings where
  /-- How many records the ring holds. -/
  slotCount : Nat := 16 * 1024
  /-- The greatest size of an encoded record. -/
  slotBytes : Nat := 4096
  /-- The least severity that is written. -/
  threshold : Severity := .info
  /-- The niceness of the consumer thread; it inherits its starter's without one. -/
  priority : Option Int := none
  /-- How writers share the ring. -/
  mode : WriterMode := .claimed
  /-- How long the consumer rests when nothing is left to do. -/
  idleWait : Duration := Duration.ofNanos 50000
  /-- How long a shutdown waits for the consumer. -/
  shutdownTimeout : Duration := ⟨1, 0⟩
  /-- The name of the consumer thread. -/
  threadName : String := "ring-logger-worker"
  deriving DecidableEq, Repr

/-- Why a relay cannot be started with some settings. -/
inductive SettingsFault
  | slotCount
  | slotTooSmall
  | slotTooLarge
  | storage
  | idleWait
  | threadName
  deriving DecidableEq, Repr

/-- The wording of a fault. -/
def SettingsFault.message : SettingsFault → String
  | slotCount => "ring capacity must be a power of 2 and at least 2"
  | slotTooSmall =>
    "slot capacity must exceed the " ++ toString headerSize ++ "-byte record header"
  | slotTooLarge => "slot capacity must fit in an i32"
  | storage => "ring storage size overflows usize"
  | idleWait => "idle wait must be greater than 0"
  | threadName => "thread name must not contain NUL"

namespace Settings

/-- The first fault of the settings, if they have one. -/
def check (s : Settings) : Except SettingsFault Unit :=
  if ¬ PowerOfTwo s.slotCount then .error .slotCount
  else if s.slotBytes ≤ headerSize then .error .slotTooSmall
  else if maxMessageLength < s.slotBytes then .error .slotTooLarge
  else if wordMax < s.slotCount * s.slotBytes then .error .storage
  else if s.idleWait.toNanos = 0 then .error .idleWait
  else if '\x00' ∈ s.threadName.toList then .error .threadName
  else .ok ()

/-- The settings if they pass, or their fault as a relay's error. -/
def checked (s : Settings) : Except RelayError Settings :=
  match s.check with
  | .ok () => .ok s
  | .error fault => .error (.settings fault.message)

/-- Default settings for a ring of `slotCount` slots. -/
def ofSlotCount (slotCount : Nat) : Except RelayError Settings :=
  checked { slotCount }

/-- The settings with another slot size, which has to fit with all others. -/
def withSlotBytes (s : Settings) (slotBytes : Nat) : Except RelayError Settings :=
  checked { s with slotBytes }

/-- Settings that pass describe a ring. -/
theorem geometry_of_check {s : Settings} (h : s.check = .ok ()) :
    ∃ g, Geometry.check s.slotCount s.slotBytes = .ok g := by
  rw [Geometry.check_eq_ok_iff]
  unfold check at h
  split at h
  · simp at h
  · split at h
    · simp at h
    · split at h
      · simp at h
      · split at h
        · simp at h
        · exact ⟨Decidable.not_not.1 ‹_›, by omega, by omega, by omega⟩

end Settings

end LogRelay
