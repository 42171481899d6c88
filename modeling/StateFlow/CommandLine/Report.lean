import StateFlow.CommandLine.Arguments
import StateFlow.Handler.Program

/-!
# What the program does

A call of the program ends with a report: what it prints, and its error if it fails.  A manifest is
loaded first; the input of an execution is read before its options are looked at.
-/

namespace StateFlow.CommandLine

/-- What the program is run on. -/
structure Host where
  /-- The texts of files. -/
  lookup : String → Except FileFault String
  /-- The path of the manifest that the environment gives. -/
  manifestPath? : Option String
  /-- What runs the programs of handlers. -/
  handlers : Command → Invoker
  /-- The present instant. -/
  now : Timestamp

/-- Why the program fails. -/
inductive Failure where
  | load (error : LoadError)
  | inputText
  | inputUnreadable (path : String) (fault : FileFault)
  | inputFile (path : String)
  | noInvoker
  /-- An execution could not be started. -/
  | start (fault : Fault)
  | execution (fault : Fault)
deriving DecidableEq, Repr, Inhabited

namespace Failure

/-- What is said of a text that is not a document. -/
def malformed : String := "malformed"

/-- The texts of a failure, from the outermost to its cause. -/
def chain : Failure → List String
  | load error => error.chain
  | inputText => ["--input is not valid JSON", malformed]
  | inputUnreadable path fault => [s!"failed to read input file {path}", fault.message]
  | inputFile path => [s!"input file {path} is not valid JSON", malformed]
  | noInvoker =>
    ["no handler invoker configured; pass --invoker or set custom.sfsim.invoker in the manifest"]
  | start fault => [fault.message]
  | execution fault =>
    let cause := fault.cause?.getD ""
    [s!"execution failed: {fault.errorName} {cause}"]

/-- The outermost text of a failure. -/
def message (f : Failure) : String := f.chain.head?.getD ""

end Failure

/-- What a call of the program ends with. -/
structure Report where
  status : Nat
  output : String
  /-- The events of an execution, if they are asked for. -/
  events : List Event
  failure? : Option Failure
deriving Repr, Inhabited

namespace Report

/-- A call that went well. -/
def success (lines : List String) : Report := ⟨0, String.join (lines.map (· ++ "\n")), [], none⟩

/-- A call that failed. -/
def ofFailure (failure : Failure) : Report := ⟨1, "", [], some failure⟩

/-- A call that the program does not understand. -/
def ofUsage (error : UsageError) : Report := ⟨error.status, "", [], none⟩

end Report

/-- The lines that list the machines of a manifest. -/
def listLines (m : Manifest) : List String :=
  if m.machines.isEmpty then ["No state machines declared"]
  else m.machines.map fun (name, machine) => s!"{name} (starts at {machine.startAt})"

/-- The line of a valid machine: its states and tasks, those inside Map states aside. -/
def validLine (name : String) (m : Machine) : String :=
  let tasks := m.states.countP fun e => e.2.kind = .task
  s!"{name}: ok ({m.states.length} states, {tasks} tasks)"

/-- The lines that tell that a manifest is valid. -/
def validLines (m : Manifest) : List String :=
  m.machines.map (fun (name, machine) => validLine name machine) ++
    [s!"{m.machines.length} state machine(s) valid, {m.bindings.size} task binding(s)"]

/-- The input of an execution: a text that is given, a file, or an empty object. -/
def readInput (host : Host) (r : RunRequest) : Except Failure Json :=
  match r.input?, r.inputFile? with
  | some text, _ => match Json.read? text with
    | some document => .ok document
    | none => .error .inputText
  | none, some path => do
    let text ← (host.lookup path).mapError (.inputUnreadable path)
    match Json.read? text with
    | some document => .ok document
    | none => .error (.inputFile path)
  | none, none => .ok Json.empty

/-- The command that runs handlers, which there must be. -/
def requireCommand (o : Options) : Except Failure Command :=
  match o.command? with
  | some command => .ok command
  | none => .error .noInvoker

/-- Runs a machine of a manifest to the end of its execution. -/
def runMachine (host : Host) (a : Arguments) (m : Manifest) (r : RunRequest) :
    Except Failure Execution := do
  let input ← readInput host r
  let options := a.options.resolve m.options m.baseDir?
  let command ← requireCommand options
  let services := (Services.standard m.bindings (host.handlers command)).withConcurrency
    options.concurrency
  let simulator ← (m.simulator services host.now).mapError .start
  let (simulator, place) ← (simulator.start r.name input).mapError .start
  return ((simulator.await place).engine.executions[place]?).getD default

/-- Tells how an execution ended. -/
def tell (e : Execution) : Report :=
  match e.result? with
  | some (.ok output) => .success [output.indented]
  | some (.error fault) => .ofFailure (.execution fault)
  | none => .ofFailure (.execution .cancelled)

/-- Does what is asked with a manifest. -/
def performTask (host : Host) (a : Arguments) (m : Manifest) : Report :=
  match a.task with
  | .list => .success (listLines m)
  | .validate => .success (validLines m)
  | .run r =>
    match runMachine host a m r with
    | .ok e => { tell e with events := if r.events then e.events else [] }
    | .error failure => .ofFailure failure

/-- Does what a command line asks. -/
def perform (host : Host) (arguments : List String) : Report :=
  match read arguments with
  | .error error => .ofUsage error
  | .ok a =>
    let path := Manifest.path a.config? host.manifestPath?
    match Manifest.load path (host.lookup path) with
    | .error error => .ofFailure (.load error)
    | .ok m => performTask host a m

end StateFlow.CommandLine
