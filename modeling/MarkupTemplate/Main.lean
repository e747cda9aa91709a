import MarkupTemplate.CommandLine

/-!
# The program

Runs the command line on the files of the directory it is started in.
-/

open MarkupTemplate

/-- The bytes of a file, if it can be read. -/
def readBytes (name : String) : IO (Option ByteArray) := do
  try
    return some (← IO.FS.readBinFile name)
  catch _ => return none

/-- Prints what a run leaves, and answers with its exit code. -/
def main (arguments : List String) : IO UInt32 := do
  let outcome ← CommandLine.run readBytes arguments
  IO.print outcome.stdout
  match outcome.message with
  | some message => IO.eprintln s!"Error: {message}"
  | none => if outcome.exit = 2 then IO.eprintln "usage: stamp render|inspect TEMPLATE"
  return outcome.exit.toUInt32
