import RecordModel.CommandLine.Run

/-!
# The command line

Reads the files that the arguments name, prints the answer, and ends with its status.
-/
namespace RecordModel.CommandLine

/-- The content of a file, if it can be read. -/
def readIfPresent (path : String) : IO (Option String) := do
  try return some (← IO.FS.readFile path)
  catch _ => return none

/-- The files at the given paths. -/
def readFiles (paths : List String) : IO Files := do
  let found := paths.zip (← paths.mapM readIfPresent)
  return fun path => (found.lookup path).join

end RecordModel.CommandLine

open RecordModel

def main (args : List String) : IO UInt32 := do
  let files ← CommandLine.readFiles (CommandLine.filesNamed args)
  let report := CommandLine.run Sql.Drivers.standard files args
  report.output.forM fun line => IO.println line
  report.complaints.forM fun line => IO.eprintln line
  return UInt32.ofNat report.status
