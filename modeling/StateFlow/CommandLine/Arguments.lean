import StateFlow.CommandLine.Matching
import StateFlow.Manifest.Load

/-!
# The arguments of the program

The program lists the machines of a manifest, validates them, or runs one.  Options that all three
take may stand before or after the subcommand; those after it win.
-/

namespace StateFlow.CommandLine

/-- How an execution is asked for. -/
structure RunRequest where
  name : String
  input? : Option String
  inputFile? : Option String
  /-- Events are printed as they happen. -/
  events : Bool
deriving DecidableEq, Repr, Inhabited

/-- What the program is asked to do. -/
inductive Task where
  | list
  | validate
  | run (request : RunRequest)
deriving DecidableEq, Repr, Inhabited

/-- A command line. -/
structure Arguments where
  config? : Option String
  concurrency? : Option Nat
  invoker? : Option String
  invokerArguments : List String
  task : Task
deriving DecidableEq, Repr, Inhabited

/-- The parameters that stand at every level. -/
def shared : List Parameter :=
  [.single "config" (some 'c') .path, .single "map-concurrency" none .count,
    .single "invoker" none .text, ⟨"invoker-arg", none, .append, .text, true⟩]

/-- The request for help. -/
def helpParameter : Parameter := ⟨"help", some 'h', .help, .text, false⟩

/-- The word that asks for help. -/
def helpWord : String := "help"

/-- The level of the program. -/
def programLevel : Level :=
  ⟨shared ++ [helpParameter], none, [], ["list", "validate", "run", helpWord]⟩

/-- The level of a subcommand that takes nothing of its own. -/
def plainLevel : Level := ⟨shared ++ [helpParameter], none, [], []⟩

/-- The level of the subcommand that runs a machine. -/
def runLevel : Level :=
  ⟨[.single "input" (some 'i') .text, .single "input-file" none .path,
      ⟨"events", none, .flag, .text, false⟩] ++ shared ++ [helpParameter],
    some (.single "name" none .text), [("input", "input-file")], []⟩

/-- The error of arguments after the word that asks for help. -/
def helpError : List String → UsageError
  | [] => .help
  | [topic] => if topic ∈ programLevel.subcommands then .help else .invalidSubcommand
  | _ => .invalidSubcommand

/-- Matches the arguments after the name of a subcommand. -/
def matchSubcommand (l : Level) (rest : List String) : Except UsageError Matched := do
  let (m, _) ← matchLevel l .none rest
  complete l m false

/-- A parameter as given after the subcommand, or else before it. -/
def valuesOf (outer inner : Matched) (name : String) : Option (List String) :=
  inner.get? name <|> outer.get? name

/-- The command line of two levels. -/
def ofMatched (outer inner : Matched) (task : Task) : Arguments where
  config? := (valuesOf outer inner "config").bind List.head?
  concurrency? := ((valuesOf outer inner "map-concurrency").bind List.head?).bind readCount?
  invoker? := (valuesOf outer inner "invoker").bind List.head?
  invokerArguments := (valuesOf outer inner "invoker-arg").getD []
  task

/-- How a level asks for an execution. -/
def runRequest (m : Matched) : RunRequest where
  name := (m.first? "name").getD ""
  input? := m.first? "input"
  inputFile? := m.first? "input-file"
  events := m.has "events"

/-- Reads the arguments of the program. -/
def read (arguments : List String) : Except UsageError Arguments := do
  let (outer, named?) ← matchLevel programLevel .none arguments
  match named? with
  | none =>
    let _ ← complete programLevel outer false
    .error .missingSubcommand
  | some (name, rest) =>
    if name = helpWord then .error (helpError rest)
    -- errors of the subcommand count before those of the values in front of it
    let inner ← matchSubcommand (if name = "run" then runLevel else plainLevel) rest
    let outer ← complete programLevel outer true
    return ofMatched outer inner
      (if name = "run" then .run (runRequest inner)
        else if name = "list" then .list else .validate)

namespace Arguments

/-- The options that a command line gives. -/
def options (a : Arguments) : Options :=
  ⟨a.concurrency?, a.invoker?.map fun program => ⟨program, a.invokerArguments, none⟩⟩

end Arguments

end StateFlow.CommandLine

namespace StateFlow.Options

/-- A command that runs in the directory of a manifest, or in one seen from there. -/
def anchored (baseDir? : Option String) (c : Command) : Command :=
  match c.workingDir?, baseDir? with
  | some dir, some base => { c with workingDir? := some (Location.join base dir) }
  | .none, base? => { c with workingDir? := base? }
  | some _, .none => c

/-- Options over those of a manifest, with the handlers run in the directory of the manifest. -/
def resolve (o : Options) (manifest : Options) (baseDir? : Option String) : Options :=
  let merged := o.layeredOver manifest
  { merged with command? := merged.command?.map (anchored baseDir?) }

end StateFlow.Options
