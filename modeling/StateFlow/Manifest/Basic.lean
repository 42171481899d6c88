import StateFlow.Machine.Codec
import StateFlow.Machine.Tasks
import StateFlow.Machine.Validation
import StateFlow.Manifest.Declarations
import StateFlow.Manifest.Options
import StateFlow.Manifest.Reference
import StateFlow.Simulator

/-!
# Manifests

A manifest holds machines that are valid and a binding for each of their tasks.
`Manifest.ofDeclarations` makes one of declarations: options first, then machine by machine, where
each definition is read and validated before its tasks are bound.  The first error counts.
-/

namespace StateFlow

/-- Valid machines, the functions bound to their tasks, and options. -/
structure Manifest where
  /-- The directory that the manifest lies in, for one that was read from a file. -/
  baseDir? : Option String
  machines : List (String × Machine)
  bindings : Bindings
  options : Options
deriving Inhabited

/-- Why declarations make no manifest. -/
inductive ManifestError where
  /-- The text is not written well, or does not declare a manifest. -/
  | malformed
  | options (error : RecordError)
  | definition (machine : String) (error : RecordError)
  | invalid (machine : String) (violations : List Violation)
  | unnamed (machine state : String) (flaw : NamingFlaw)
  /-- A task names a function that is not declared. -/
  | undeclared (machine state function : String)
  /-- The handler of a function does not name a module and an entry. -/
  | handler (function text : String)
deriving DecidableEq, Repr, Inhabited

namespace ManifestError

/-- What stands for the reason why a text is not written well. -/
def malformedReason : String := "<yaml>"

/-- The texts of an error, from the outermost to its cause. -/
def chain : ManifestError → List String
  | malformed => ["failed to parse manifest", malformedReason]
  | options error => ["invalid custom.sfsim options", error.message]
  | definition machine error =>
    [s!"failed to parse definition of state machine '{machine}'", error.message]
  | invalid machine violations =>
    [s!"state machine '{machine}' is invalid", Violation.summary violations]
  | unnamed machine state flaw => [s!"state '{state}' of '{machine}'", flaw.message]
  | undeclared machine state function =>
    [s!"state '{state}' of '{machine}' references function '{function}' which is not declared " ++
      "under functions"]
  | handler function text =>
    [s!"handler '{text}' of function '{function}' must look like 'path/to/module.entry'"]

end ManifestError

namespace Manifest

/-- The custom section that holds options. -/
def optionsSection : String := "sfsim"

/-- The options among custom sections. -/
def readOptions (custom : List (String × Json)) : Except ManifestError Options :=
  match Entries.get? custom optionsSection with
  | none => .ok Options.none
  | some document => (Options.read document).mapError .options

/-- The machine of a definition, if it is valid. -/
def readMachine (name : String) (definition : Json) : Except ManifestError Machine := do
  let m ← (Machine.read definition.resolveReferences).mapError (.definition name)
  match m.violations with
  | [] => return m
  | violations => .error (.invalid name violations)

/-- The binding of a task of a machine. -/
def bindingOf (handlers : List (String × String)) (machine state : String) (task : TaskState) :
    Except ManifestError Binding := do
  let function ← task.functionName.mapError (.unnamed machine state)
  match Entries.get? handlers function with
  | none => .error (.undeclared machine state function)
  | some handler =>
    match Binding.ofHandler? handler with
    | none => .error (.handler function handler)
    | some binding => return binding

/-- Bindings with those of the tasks of a machine. -/
def bindTasks (handlers : List (String × String)) (machine : String) (bindings : Bindings) :
    List (String × TaskState) → Except ManifestError Bindings
  | [] => .ok bindings
  | (state, task) :: rest => do
    let binding ← bindingOf handlers machine state task
    bindTasks handlers machine (bindings.insert machine state binding) rest

/-- Reads definitions in order into machines and bindings. -/
def readMachines (handlers : List (String × String)) :
    List (String × Json) → Bindings → Except ManifestError (List (String × Machine) × Bindings)
  | [], bindings => .ok ([], bindings)
  | (name, definition) :: rest, bindings => do
    let machine ← readMachine name definition
    let bindings ← bindTasks handlers name bindings machine.tasks
    let (machines, bindings) ← readMachines handlers rest bindings
    return ((name, machine) :: machines, bindings)

/-- The manifest of declarations. -/
def ofDeclarations (d : Declarations) : Except ManifestError Manifest := do
  let options ← readOptions d.custom
  let (machines, bindings) ← readMachines d.handlers d.definitions Bindings.none
  return ⟨none, machines, bindings, options⟩

/-- The manifest of a text. -/
def read (text : String) : Except ManifestError Manifest :=
  match Declarations.read? text with
  | none => .error .malformed
  | some declarations => ofDeclarations declarations

/-- A simulator with the machines of a manifest, registered in order. -/
def simulator (m : Manifest) (services : Services) (origin : Timestamp) :
    Except Fault Simulator :=
  (Simulator.initial services origin).registerAll m.machines

end Manifest

end StateFlow
