/-
# Devices

A device takes bytes, but not always all that it is offered: one call may take a part of them, or
none, or be interrupted, or fail. Writing everything means to offer what is left again and again: an
interrupted call is repeated, a call that takes nothing is a failure, and the first failure ends it.
A device is interrupted only so often; its `patience` bounds that, so writing everything comes to an
end.

`LimitedDevice` takes so many bytes per call and so many in all.

Key definitions: `Device`, `Device.writeAll`, `LimitedDevice`, `LimitedDevice.device`.
-/
import LogRelay.Bytes
import LogRelay.Failure

namespace LogRelay

/-- How a device answers an offer of bytes. -/
inductive Device.Reply
  /-- It took the first `count` bytes. -/
  | accepted (count : Nat)
  /-- It took nothing, and the offer may be repeated. -/
  | interrupted
  /-- It took nothing. -/
  | failed (error : OutputError)
  deriving DecidableEq, Repr

/-- A device with states in `δ`. -/
structure Device (δ : Type) where
  /-- Offers bytes. -/
  write : δ → Bytes → Device.Reply × δ
  /-- Makes sure that nothing taken so far is held back. -/
  flush : δ → Except OutputError Unit × δ
  /-- How often the device may still be interrupted. -/
  patience : δ → Nat
  patience_lt : ∀ d bytes after, write d bytes = (.interrupted, after) → patience after < patience d

namespace Device

/-- Writes all of `bytes`. -/
def writeAll {δ : Type} (dev : Device δ) (d : δ) (bytes : Bytes) : Except OutputError Unit × δ :=
  if bytes = [] then (.ok (), d)
  else
    match _h : dev.write d bytes with
    | (.accepted 0, d) => (.error .writeZero, d)
    | (.accepted (count + 1), d) => dev.writeAll d (bytes.drop (count + 1))
    | (.interrupted, d) => dev.writeAll d bytes
    | (.failed e, d) => (.error e, d)
termination_by (bytes.length, dev.patience d)
decreasing_by
  · have : 0 < bytes.length := List.length_pos_iff.2 (by assumption)
    exact Prod.Lex.left _ _ (by rw [List.length_drop]; omega)
  · exact Prod.Lex.right _ (dev.patience_lt _ _ _ (by assumption))

end Device

/-! ### Devices with limits -/

/-- How a full device answers. -/
inductive Refusal
  /-- It takes nothing. -/
  | takesNothing
  /-- It fails. -/
  | fails (error : OutputError)
  deriving DecidableEq, Repr

/-- A device that takes at most `chunk` bytes per call and `limit` in all. -/
structure LimitedDevice where
  chunk : Option Nat := none
  limit : Option Nat := none
  /-- How it answers when it can take no byte. -/
  refusal : Refusal := .takesNothing
  /-- How many calls are interrupted before the first byte is taken. -/
  interruptions : Nat := 0
  /-- How a flush ends. -/
  flushed : Except OutputError Unit := .ok ()
  /-- The bytes taken. -/
  stored : Bytes := []

namespace LimitedDevice

/-- How many of `offered` bytes the device takes. -/
def share (d : LimitedDevice) (offered : Nat) : Nat :=
  let most := match d.chunk with
    | some chunk => min offered chunk
    | none => offered
  match d.limit with
  | some limit => min most (limit - d.stored.length)
  | none => most

/-- Offers bytes. -/
def write (d : LimitedDevice) (bytes : Bytes) : Device.Reply × LimitedDevice :=
  match d.interruptions with
  | n + 1 => (.interrupted, { d with interruptions := n })
  | 0 =>
    let count := d.share bytes.length
    if count = 0 then
      match d.refusal with
      | .takesNothing => (.accepted 0, d)
      | .fails error => (.failed error, d)
    else (.accepted count, { d with stored := d.stored ++ bytes.take count })

theorem interruptions_lt (d : LimitedDevice) (bytes : Bytes) (after : LimitedDevice)
    (h : d.write bytes = (.interrupted, after)) : after.interruptions < d.interruptions := by
  unfold write at h
  split at h
  · next n left =>
    simp only [Prod.mk.injEq, true_and] at h
    rw [← h, left]
    exact Nat.lt_succ_self n
  · dsimp only at h
    split at h
    · split at h <;> simp at h
    · simp at h

/-- The device. -/
def device : Device LimitedDevice where
  write := write
  flush d := (d.flushed, d)
  patience d := d.interruptions
  patience_lt := interruptions_lt

end LimitedDevice

end LogRelay
