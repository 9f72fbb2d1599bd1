import MessageFormat.Command
import MessageFormat.Text.Utf8

/-! The command `icuc` as a program: the standard streams and the environment around `Command`. -/

namespace MessageFormat.Command

/-- Writes what a run leaves behind, and gives its exit code. -/
def Outcome.emit (outcome : Outcome) : IO UInt32 := do
  (← IO.getStdout).putStr outcome.stdout
  (← IO.getStderr).putStr outcome.stderr
  return outcome.code.toUInt32

end MessageFormat.Command

open MessageFormat

/-- Runs the command. The input is read only if the arguments are accepted. -/
def main (args : List String) : IO UInt32 := do
  let locale ← IO.getEnv "ICUC_LOCALE"
  match (Command.Config.initial locale).read args with
  | .error refusal => refusal.outcome.emit
  | .ok config =>
    let bytes ← (← IO.getStdin).readBinToEnd
    (Command.answer config (Utf8.decode? bytes.toList)).emit
