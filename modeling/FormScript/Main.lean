import FormScript.CommandLine

/-!
# The program

Reads the named file, if the call names one, carries the call out and delivers its result. No
clock is read: for a call the time stands still, so of all time limits only that of zero is reached.
-/

namespace FormScript

/-- The text of a file, unless it cannot be read or is no text. -/
def readText? (name : String) : IO (Option String) := do
  try
    return some (← IO.FS.readFile name)
  catch _ =>
    return none

/-- Writes a result to the two output channels. -/
def Outcome.deliver (o : Outcome) : IO UInt32 := do
  (← IO.getStdout).putStr o.stdout
  (← IO.getStderr).putStr o.stderr
  return o.exit.toUInt32

end FormScript

open FormScript in
/-- Runs the program on the arguments of a call. -/
def main (args : List String) : IO UInt32 := do
  match Invocation.parse? args with
  | none => Invocation.usage.deliver
  | some call =>
    let file? ← if call.fromFile then readText? call.contents else pure none
    (call.run .still file?).deliver
