/-
# A small run of a relay

Four workers log five steps of work and an error each to a relay with a console sink; the relay is
stopped and says what became of their records. Every record is written at a clock reading of its
own.

Key definitions: `Demo.entries`, `Demo.run`.
-/
import LogRelay.Relay
import LogRelay.Sink.Console

namespace LogRelay

namespace Demo

/-- The settings of the run. -/
def settings : Settings := { slotCount := 1024, threshold := .debug }

/-- How many workers there are. -/
def workers : Nat := 4

/-- How many steps a worker makes. -/
def steps : Nat := 5

/-- The message of a step. -/
def stepScript (worker step : Nat) : Script 1 :=
  .ofTexts ["worker ", toString worker, " step ", toString step]

/-- What one worker logs. -/
def workerEntries (worker : Nat) : List (Entry 1) :=
  let component := UInt8.ofNat worker
  (List.range steps).map (fun step => .formatted (.solo .info component) (stepScript worker step))
    ++ [.text (.solo .error component) "worker finished with a simulated error"]

/-- What all workers log, one worker after the other. -/
def entries : List (Entry 1) := (List.range workers).flatMap workerEntries

/-- Logs entries, each at the next of the clock readings. -/
def logAll (relay : Relay Console) (scratch : Scratch) :
    List (Entry 1) → List UInt64 → Relay Console
  | entry :: rest, now :: later =>
    let (relay, scratch) := relay.logIfEnabled scratch now entry
    logAll relay scratch rest later
  | _, _ => relay

/-- The last line of the run. -/
def summary (s : Stats) : String :=
  "published=" ++ toString s.published ++ " delivered=" ++ toString s.delivered ++ " dropped="
    ++ toString s.overflowed

/-- The run at the given clock readings: what is on the console afterwards, and the last line. -/
def run (readings : List UInt64) : Except (Failure RelayError) (Console × String) :=
  match Relay.start settings ({} : Console) with
  | .error e => .error e
  | .ok relay =>
    let relay := logAll relay {} entries readings
    match relay.shutdown Console.sink (readings.getLastD 0) false with
    | (.error e, _) => .error (.refused e)
    | (.ok (), relay) => .ok (relay.pipeline.sink, summary relay.stats)

end Demo

end LogRelay
