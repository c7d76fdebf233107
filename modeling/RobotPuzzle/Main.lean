import RobotPuzzle.CommandLine

/-!
# The program

Reads the files that the arguments name and prints the report.
-/

open RobotPuzzle.CommandLine

/-- The text of a file, or why it cannot be read. -/
def readText (path : String) : IO (Except ReadError String) := do
  try
    return .ok (← IO.FS.readFile path)
  catch
    | .noFileOrDirectory .. => return .error .notFound
    | .inappropriateType .. => return .error .isDirectory
    | _ => return .error .notText

/-- Plays the program file of the first argument on the level file of the second. -/
def main (args : List String) : IO UInt32 := do
  let texts ← args.mapM fun path => return (path, ← readText path)
  let report := play (fun path => (texts.lookup path).getD (.error .notFound)) args
  IO.print report.stdout
  IO.eprint report.stderr
  return report.exitCode.toUInt32
