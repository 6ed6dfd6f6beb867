import Offside.CommandLine.Run
/-!
# The program

Looks at the input file that the command line names and prints what the run gives.
-/
namespace Offside
namespace CommandLine

/-- What stands at a path of the file system.  A path that leads through a file cannot be opened, and the error names
the path; a folder can be opened, but not read.  A path that is too long and one with a null character are no valid
arguments, the latter by the general number for these, 22. -/
def lookAt (path : String) : IO Outline.Found := do
  try
    return .file (← IO.FS.readBinFile path).toList
  catch
    | .inappropriateType (some _) .. => return .notFolder
    | .inappropriateType none .. => return .folder
    | .noFileOrDirectory .. => return .nothing
    | .invalidArgument _ 22 _ => return .badPath
    | .invalidArgument .. => return .tooLong
    | e => throw e

/-- Prints a report and gives its exit code. -/
def Report.print (r : Report) : IO UInt32 := do
  (← IO.getStderr).putStr r.stderr
  (← IO.getStdout).putStr r.stdout
  return r.exit.toUInt32

end CommandLine
end Offside

def main (args : List String) : IO UInt32 := do
  match Offside.CommandLine.parse args with
  | .error refusal => refusal.report.print
  | .ok options =>
    match Offside.CommandLine.execute options (← Offside.CommandLine.lookAt options.file) with
    | .ok report => report.print
    | .error failure =>
      (← IO.getStderr).putStrLn failure.message
      return 1
