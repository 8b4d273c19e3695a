import RelationalAlgebra.CommandLine.Run

/-!
# The program

Carries `CommandLine.run` out: files are read, the output goes to standard output and complaints go
to standard error.  There is no reader for database files, so the only database that can be opened
is the one in memory.
-/

namespace RelationalAlgebra.CommandLine

/-- Why a file could not be read. -/
def faultOf : IO.Error → FileFault
  | .noFileOrDirectory .. => .missing
  | .permissionDenied .. => .denied
  | .inappropriateType .. => .directory
  | _ => .notText

/-- Reads a file. -/
def readText (path : String) : IO (Except FileFault String) := do
  try
    return .ok (← IO.FS.readFile path)
  catch e =>
    return .error (faultOf e)

/-- The directory where the configurations of the user are. -/
def configDirectory : IO (Option String) := do
  match ← IO.getEnv "XDG_CONFIG_HOME" with
  | some directory => return some directory
  | none => return (← IO.getEnv "HOME").map (· ++ "/.config")

/-- Runs the program and gives its exit code. -/
def execute (args : List String) : IO UInt32 := do
  let surroundings : Surroundings := ⟨← configDirectory, ← IO.getEnv "KEEP_DATABASE_URL"⟩
  let outcome ← (run surroundings args).perform readText fun _ => return none
  IO.print outcome.output
  for text in outcome.ending.complaint?.toList do
    IO.eprintln text
  return outcome.ending.code.toUInt32

end RelationalAlgebra.CommandLine

/-- Runs the program on the arguments of the command line. -/
def main (args : List String) : IO UInt32 := RelationalAlgebra.CommandLine.execute args
