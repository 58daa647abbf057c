import DeskCalculator.Terminal.Program

/-!
# The command line program

The outer layer: it reads the settings file that the options name and the standard input, and
writes the report of the run.
-/

open DeskCalculator

/-- Why the system could not read a file. -/
def fileError : IO.Error → FileError
  | .noFileOrDirectory .. => .notFound
  | .inappropriateType _ code _ => if code = 21 ∨ code = -21 then .isFolder else .notFolder
  | .permissionDenied .. => .other "Permission denied (os error 13)"
  | e => .other (toString e)

/-- A text file. -/
def readText (path : String) : IO (Except FileError Text) := do
  try
    let bytes ← IO.FS.readBinFile path
    return match String.fromUTF8? bytes with
      | some text => .ok text.toList
      | none => .error .notText
  catch e => return .error (fileError e)

/-- The file that the options name; no other is looked up. -/
def settingsText (arguments : List String) : IO (Except FileError Text) :=
  match (Options.parse arguments).toOption.bind Options.settingsFile with
  | some path => readText path
  | none => return .error .notFound

def main (arguments : List String) : IO UInt32 := do
  let contents ← settingsText arguments
  let input ← (← IO.getStdin).readBinToEnd
  let report := Program.run arguments (fun _ => contents) input.toList
  (← IO.getStdout).putStr report.output
  (← IO.getStderr).putStr report.errors
  return report.exitCode.toUInt32
