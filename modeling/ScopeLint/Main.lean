import ScopeLint.Sample

/-!
# Command line

Checks the sample template and prints the report on it.  Findings go to the
log as they are made, and from there to the error stream.
-/

open ScopeLint

private def surroundings : IO Text.Surroundings := do
  return {
    forced := ← IO.getEnv "FORCE_COLOR"
    refused := ← IO.getEnv "NO_COLOR"
    terminal := ← (← IO.getStderr).isTty }

def main : IO Unit := do
  let around ← surroundings
  for record in Sample.checked.journal.heardFrom .warning do
    IO.eprintln record.message
  match Sample.checked.result with
  | .ok findings => IO.print (Sample.report around.wantsColors findings)
  | .error failure => IO.eprintln failure.message
