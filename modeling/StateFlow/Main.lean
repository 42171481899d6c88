import Std.Time.DateTime.Timestamp
import StateFlow.CommandLine.Report
import StateFlow.Shell.Programs

/-!
# The program

The program reads its arguments, one variable of the environment and the files that the arguments
name; what follows from them is `CommandLine.perform`.  The programs of handlers are those of the
stand-in `Shell.programs`.
-/

namespace StateFlow.Main

/-- What went wrong with a file. -/
def faultOf : IO.Error → FileFault
  | .noFileOrDirectory .. => .absent
  | .permissionDenied .. => .denied
  | error => .other (toString error)

/-- The text of a file, if it can be read. -/
def readFile (path : String) : IO (Except FileFault String) := do
  return (← (IO.FS.readFile path).toBaseIO).mapError faultOf

/-- The paths of the files that a command line is about. -/
def pathsOf (manifestPath? : Option String) (arguments : List String) : List String :=
  match CommandLine.read arguments with
  | .error _ => []
  | .ok a =>
    let input? := match a.task with
      | .run r => r.inputFile?
      | _ => none
    Manifest.path a.config? manifestPath? :: input?.toList

/-- The present instant. -/
def now : IO Timestamp := do
  let nanoseconds := (← Std.Time.Timestamp.now).toNanosecondsSinceUnixEpoch.val
  return ⟨nanoseconds / 1000000000, (nanoseconds % 1000000000).toNat⟩

/-- What the program is run on. -/
def host (arguments : List String) : IO CommandLine.Host := do
  let manifestPath? ← IO.getEnv Manifest.pathVariable
  let texts ← (pathsOf manifestPath? arguments).mapM fun path => return (path, ← readFile path)
  let lookup := fun path => (Entries.get? texts path).getD (.error .absent)
  let known := texts.filterMap fun (path, text?) => text?.toOption.map fun text => (path, text)
  return ⟨lookup, manifestPath?, Handler.ofCommand (Shell.programs (.ofPaths known)), ← now⟩

/-- Prints a report. -/
def print (report : CommandLine.Report) : IO Unit := do
  for event in report.events do
    IO.eprintln event.toJson.compact
  IO.print report.output
  match report.failure? with
  | none => return
  | some failure =>
    IO.eprintln s!"Error: {failure.message}"
    for cause in failure.chain.drop 1 do
      IO.eprintln s!"Caused by: {cause}"

end StateFlow.Main

/-- Runs the program. -/
def main (arguments : List String) : IO UInt32 := do
  let report := StateFlow.CommandLine.perform (← StateFlow.Main.host arguments) arguments
  StateFlow.Main.print report
  return UInt32.ofNat report.status
