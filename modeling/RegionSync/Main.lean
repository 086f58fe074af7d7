import RegionSync.Command.Run

/-! The program: prints what the command prints and exits with its code. -/

/-- Runs the command on the arguments. -/
def main (args : List String) : IO UInt32 := do
  let clock ← IO.monoNanosNow
  let printed := RegionSync.Command.run .exact args (.ofNat clock)
  for text in printed.output do
    IO.println text
  for text in printed.errors do
    IO.eprintln text
  return printed.code.toUInt32
