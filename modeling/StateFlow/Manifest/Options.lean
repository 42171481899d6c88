import StateFlow.Execution.Situation
import StateFlow.Record

/-!
# Options

What a manifest or a command line says about running: the bound on Map items, and the program that
runs handlers.  Options come in layers, and in each field the upper layer wins.
-/

namespace StateFlow

open Json

/-- A program that runs handlers. -/
structure Command where
  program : String
  arguments : List String
  workingDir? : Option String
deriving DecidableEq, Repr, Inhabited

/-- Options for running machines. -/
structure Options where
  concurrency? : Option Nat
  command? : Option Command
deriving DecidableEq, Repr, Inhabited

/-- A record that may also stand as the array of its fields in order.  The first `required` fields
must be there. -/
def readPositional {α : Type} (read : List (String × Json) → Except RecordError α)
    (fields : List String) (required : Nat) (items : List Json) : Except RecordError α := do
  let value ← read (fields.zip items)
  if required ≤ items.length ∧ items.length ≤ fields.length then return value
  else .error .wrongLength

namespace Command

/-- A command with one more field read. -/
def readField (c : Command) (name : String) (value : Json) : Except RecordError Command := do
  if name = "program" then return { c with program := ← value.readString }
  else if name = "args" then
    return { c with arguments := ← (← value.readItems).mapM readString }
  else if name = "workingDir" then
    return { c with workingDir? := ← value.readOptional readString }
  else return c

/-- The command of some entries. -/
def readFields (entries : List (String × Json)) : Except RecordError Command :=
  entries.foldlM (fun c e => c.readField e.1 e.2) ⟨"", [], none⟩

/-- The fields in order. -/
def fields : List String := ["program", "args", "workingDir"]

/-- The command that a document writes. -/
def read : Json → Except RecordError Command
  | .object entries => do
    let c ← readFields entries
    require entries "program"
    return c
  | .array items => readPositional readFields fields 1 items
  | _ => .error .wrongType

/-- The document of a command. -/
def toJson (c : Command) : Json :=
  object ([("program", string c.program), ("args", array (c.arguments.map string))] ++
    entryOf "workingDir" string c.workingDir?)

end Command

namespace Options

/-- Options that leave everything open. -/
def none : Options := ⟨.none, .none⟩

/-- Options with one more field read. -/
def readField (o : Options) (name : String) (value : Json) : Except RecordError Options := do
  if name = "defaultMapConcurrency" then
    return { o with concurrency? := ← value.readOptional (readCount greatestCount64) }
  else if name = "invoker" then return { o with command? := ← value.readOptional Command.read }
  else return o

/-- The options of some entries. -/
def readFields (entries : List (String × Json)) : Except RecordError Options :=
  entries.foldlM (fun o e => o.readField e.1 e.2) none

/-- The fields in order. -/
def fields : List String := ["defaultMapConcurrency", "invoker"]

/-- The options that a document writes. -/
def read : Json → Except RecordError Options
  | .object entries => readFields entries
  | .array items => readPositional readFields fields 0 items
  | _ => .error .wrongType

/-- The document of options. -/
def toJson (o : Options) : Json :=
  object (entryOf "defaultMapConcurrency" ofNat o.concurrency? ++
    entryOf "invoker" Command.toJson o.command?)

/-- Options with those left open taken from another layer. -/
def layeredOver (upper lower : Options) : Options :=
  ⟨upper.concurrency? <|> lower.concurrency?, upper.command? <|> lower.command?⟩

/-- The bound on Map items that options give. -/
def concurrency (o : Options) : Nat := o.concurrency?.getD Services.standardConcurrency

end Options

end StateFlow
