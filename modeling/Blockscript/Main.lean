import Blockscript.Command.Run

/-!
# The program

Formats, inspects and checks the documents of rules and actions.
-/

open Blockscript

/-- Why the system refused a file. -/
def accessError : IO.Error → AccessError
  | .noFileOrDirectory .. => .missing
  | .inappropriateType _ code _ =>
    if code.toInt32.toInt.natAbs = 21 then .isDirectory else .notDirectory
  | e => .other (toString e)

/-- The host that works on the files of the system. -/
def systemHost (start : Nat) : Host IO where
  read path := do
    try return .ok (← IO.FS.readFile path)
    catch e => return .error (accessError e)
  write path content := do
    try
      IO.FS.writeFile path content
      return none
    catch e => return some (accessError e)
  elapsed := do
    let now ← IO.monoMsNow
    return some (Command.numeral (now - start) ++ "ms")

/-- Runs the command on the command line. -/
def main (words : List String) : IO UInt32 := do
  let report ← Command.runWords (systemHost (← IO.monoMsNow)) words
  IO.print report.out
  IO.eprint report.err
  return report.code
