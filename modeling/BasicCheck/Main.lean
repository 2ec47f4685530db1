import BasicCheck.CommandLine

/-!
# The program

Runs the command line on the files of the system.
-/

namespace BasicCheck.CommandLine

/-- Reads a file as text. -/
def readFile (name : String) : IO (Except ReadFault String) := do
  try
    return textOfBytes (← IO.FS.readBinFile name)
  catch
    | .noFileOrDirectory _ _ _ => return .error .missing
    | .permissionDenied _ _ _ => return .error .forbidden
    | .inappropriateType _ _ _ => return .error .directory
    | fault => return .error (.other (toString fault))

/-- Reads the file that some arguments name, if they name one. -/
def readFiles (args : List String) : IO Files := do
  match (Command.ofArgs? args).bind Command.file? with
  | some name =>
    let text ← readFile name
    return fun _ => text
  | none => return fun _ => .error .missing

end BasicCheck.CommandLine

open BasicCheck in
def main (args : List String) : IO UInt32 := do
  let outcome := CommandLine.run (← CommandLine.readFiles args) args
  IO.print outcome.output
  IO.eprint outcome.errors
  return outcome.exit.toUInt32
