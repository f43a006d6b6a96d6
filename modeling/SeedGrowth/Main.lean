import SeedGrowth.CommandLine.Command

/-!
# The program

Reads the standard input if it is needed, takes the time, and writes what the
command writes.
-/
namespace SeedGrowth

open CommandLine

/-- The time in seconds. -/
def seconds : IO Number := do
  return .real (Float.ofNat (← IO.monoNanosNow) / 1000000000.0)

/-- Writes an outcome, and gives the exit status. -/
def emit (outcome : Outcome) : IO UInt32 := do
  IO.print outcome.stdout
  IO.eprint outcome.stderr
  match outcome.status with
  | .exit code => return code.toUInt32
  | .stopped (.fault fault) =>
    IO.eprintln fault.message
    return 1
  | .stopped .exhausted =>
    IO.eprintln "calls are nested too deeply"
    return 1

/-- Carries out a command line. -/
def runCommand (arguments : List String) : IO UInt32 := do
  match Job.read .later arguments with
  | .error outcome => emit outcome
  | .ok job =>
    let input ← if job.operand?.isSome then pure "" else (← IO.getStdin).readToEnd
    let before ← seconds
    let result ← IO.lazyPure fun _ => job.evaluate input
    let after ← seconds
    emit (job.outcome input before after result)

end SeedGrowth

/-- Carries out the command line that the program was called with. -/
def main (arguments : List String) : IO UInt32 := SeedGrowth.runCommand arguments
