import FactForm.CommandLine

/-!
# FactForm.Main

The program: reads standard input if the arguments ask for it and prints the outcome. Templates are
matched without a pattern library, so that none refuses a pattern.
-/

open FactForm in
def main (args : List String) : IO UInt32 := do
  let args := args.map String.toList
  let stdin ← IO.getStdin
  let stdout ← IO.getStdout
  let color ← stdout.isTty
  let bytes ← if CommandLine.needsInput color args then stdin.readBinToEnd else pure .empty
  let input := (String.fromUTF8? bytes).map String.toList
  let outcome := CommandLine.execute .unlimited color args input
  stdout.putStr (String.ofList outcome.stdout)
  (← IO.getStderr).putStr (String.ofList outcome.stderr)
  return outcome.exitCode.toUInt32
