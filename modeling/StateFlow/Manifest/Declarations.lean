import StateFlow.Yaml.Record

/-!
# What a manifest declares

A manifest is a text that declares functions, machines and options.  Functions name their handlers.
Definitions of machines and custom sections are kept as documents, as they were written; what they
must be is decided later.

Sections may be left out or left empty, fields that a manifest does not know are passed over, and a
name that is declared twice keeps its first place and its last declaration.
-/

namespace StateFlow

/-- The declarations of a manifest. -/
structure Declarations where
  /-- The handlers of functions. -/
  handlers : List (String × String)
  /-- The definitions of machines. -/
  definitions : List (String × Json)
  custom : List (String × Json)
deriving Repr, Inhabited

namespace Declarations

open Yaml

/-- The handler of a function. -/
def readHandler (d : Document) (node : Node) : Following String := do
  required (← d.fields ["handler"] node) "handler" d.text

/-- The definition of a machine, four collections inside the document. -/
def readDefinition (d : Document) (node : Node) : Following Json := do
  required (← d.fields ["definition"] node) "definition" (d.value (Document.greatestDepth - 4))

/-- The section of machines. -/
def readMachines (d : Document) (node : Node) : Following (List (String × Json)) := do
  optional (← d.fields ["stateMachines"] node) "stateMachines" [] (d.table (readDefinition d))

/-- The declarations of a document. -/
def ofDocument (d : Document) : Following Declarations := do
  let fs ← d.fields ["functions", "stepFunctions", "custom"] d.root
  let handlers ← optional fs "functions" [] (d.table (readHandler d))
  let definitions ← optional fs "stepFunctions" [] (readMachines d)
  let custom ← optional fs "custom" [] (d.table (d.value (Document.greatestDepth - 2)))
  return ⟨handlers, definitions, custom⟩

/-- The declarations of a text; none when it is not written well or not a manifest. -/
def read? (text : String) : Option Declarations := do
  (← Document.ofText? text).readAll? ofDocument

end Declarations

end StateFlow
