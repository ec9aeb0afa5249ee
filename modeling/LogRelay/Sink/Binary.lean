/-
# The binary sink

Writes the encoding of every record to a device, one behind the other, so that the device's bytes
can be read back as a stream of frames.

Key definition: `binarySink`.
-/
import LogRelay.Sink.Basic
import LogRelay.Sink.Device

namespace LogRelay

/-- The sink that writes encoded records to a device. -/
def binarySink {δ : Type} (dev : Device δ) : Sink δ where
  write d f :=
    let (result, d) := dev.writeAll d f.bytes
    { state := d, outcome := Outcome.ofExcept result }
  flush d :=
    let (result, d) := dev.flush d
    { state := d, outcome := Outcome.ofExcept result }

end LogRelay
