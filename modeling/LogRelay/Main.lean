/-
# The program

Runs the small run of `LogRelay.Demo` at the readings of the system's clock and prints what it put
on the console.
-/
import LogRelay.Demo

open LogRelay

/-- Prints the run; the exit code says whether the relay could be started and stopped. -/
def main : IO UInt32 := do
  let start ← IO.monoNanosNow
  let readings ← Demo.entries.mapM fun _ => return UInt64.ofNat ((← IO.monoNanosNow) - start)
  match Demo.run readings with
  | .ok (console, summary) =>
    IO.print console.output
    IO.eprint console.errors
    IO.eprintln summary
    return 0
  | .error (.refused e) =>
    IO.eprintln ("Error: " ++ e.message)
    return 1
  | .error .panicked => return 101
