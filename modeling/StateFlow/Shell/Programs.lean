import StateFlow.Shell.Session

/-!
# Programs of a stand-in

Where nothing outside can be started, the shell and its utilities stand in for the programs of
handlers (`Shell.programs`).  The library does not depend on them: what runs programs is a parameter
of `Handler.ofCommand`, and the stand-in is put there by those who call the program.
-/

namespace StateFlow.Shell

open Handler

/-- The directories in which programs lie. -/
def programDirectories : List String := ["/bin/", "/usr/bin/"]

/-- The name of a program that may be written with its directory. -/
def programName (program : String) : String :=
  match programDirectories.find? fun d => program.startsWith d with
  | some d => (program.drop d.length).toString
  | none => program

/-- The names of the shell. -/
def shellNames : List String := ["sh", "dash", "bash"]

/-- Steps that a script of a length may take. -/
def patience (length : Nat) : Nat := 1000 + 10 * length

/-- Runs a program on an input. -/
def launch (s : Surroundings) (program : String) (arguments : List String) (input : List UInt8) :
    Except FileFault Session :=
  let session := Session.start s [program] input
  let name := programName program
  if name ∈ shellNames then
    let length := input.length + (String.join arguments).length
    .ok (session.runShell (patience length) program arguments)
  else match runProgram? s name arguments input with
  | some effect => .ok (session.leave effect)
  | none =>
    if program.toList.contains '/' then
      match s.files.locate s.directory program with
      | .ok _ => .error .denied
      | .error fault => .error fault
    else .error .absent

/-- The shell and its utilities as programs, over some files. -/
def programs (files : Files) : Programs := fun started => do
  let directory ← match started.workingDir? with
    | some dir => files.enter Files.top dir
    | none => .ok Files.top
  let session ← launch ⟨files, directory, started.environment⟩ started.program started.arguments
    started.input
  return ⟨session.ending, session.output, session.error⟩

end StateFlow.Shell
