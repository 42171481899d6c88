import StateFlow.Machine.Definition
import StateFlow.Record

/-!
# Definitions as documents

`Machine.read` and `State.read` read definitions, `Machine.toJson` and `State.toJson` write them.  A
state names its kind under `Type`, beside its other fields; a state that leads somewhere has its
`Next` and `End` among them, and those two are read after the rest.  The machines of a Map state are
read from documents that were kept until the kind of the state was known, and what was kept may name
a kind by its number.

Records without such a transition may also stand as arrays of their fields in the order in which
they are written, where trailing fields that have a default may be left out.
-/

namespace StateFlow

open Json

/-! ## Reading the states that hold no machine -/

/-- A transition with one more field read. -/
def Transition.readField (t : Transition) (name : String) (value : Json) :
    Except RecordError Transition := do
  if name = "Next" then return { t with next? := ← value.readOptional readString }
  else if name = "End" then return { t with ends := ← value.readBoolean }
  else return t

/-- The transition among the entries of a state. -/
def Transition.read (entries : List (String × Json)) : Except RecordError Transition :=
  entries.foldlM (fun t e => t.readField e.1 e.2) ⟨none, false⟩

namespace PassState

/-- A Pass state with one more field read. -/
def readField (s : PassState) (name : String) (value : Json) : Except RecordError PassState := do
  if name = "Comment" then return { s with comment? := ← value.readOptional readString }
  else if name = "InputPath" then return { s with input := ← value.readPathField }
  else if name = "Parameters" then return { s with parameters? := value.readDocument? }
  else if name = "ResultPath" then return { s with result := ← value.readPathField }
  else if name = "OutputPath" then return { s with output := ← value.readPathField }
  else return s

/-- A Pass state without any field. -/
def blank : PassState := ⟨none, .absent, none, .absent, .absent, ⟨none, false⟩⟩

/-- The Pass state of an object's entries. -/
def read (entries : List (String × Json)) : Except RecordError PassState := do
  let s ← entries.foldlM (fun s e => s.readField e.1 e.2) blank
  return { s with transition := ← Transition.read entries }

end PassState

namespace TaskState

/-- A Task state with one more field read. -/
def readField (s : TaskState) (name : String) (value : Json) : Except RecordError TaskState := do
  if name = "Comment" then return { s with comment? := ← value.readOptional readString }
  else if name = "Resource" then return { s with resource := ← value.readString }
  else if name = "InputPath" then return { s with input := ← value.readPathField }
  else if name = "Parameters" then return { s with parameters? := value.readDocument? }
  else if name = "ResultPath" then return { s with result := ← value.readPathField }
  else if name = "OutputPath" then return { s with output := ← value.readPathField }
  else if name = "TimeoutSeconds" then
    return { s with timeout? := ← value.readOptional (readCount greatestCount64) }
  else return s

/-- A Task state without any field. -/
def blank : TaskState := ⟨none, "", .absent, none, .absent, .absent, none, ⟨none, false⟩⟩

/-- The Task state of an object's entries. -/
def read (entries : List (String × Json)) : Except RecordError TaskState := do
  let s ← entries.foldlM (fun s e => s.readField e.1 e.2) blank
  -- a missing resource counts before errors in `Next` and `End`
  require entries "Resource"
  return { s with transition := ← Transition.read entries }

end TaskState

namespace WaitState

/-- A Wait state with one more field read. -/
def readField (s : WaitState) (name : String) (value : Json) : Except RecordError WaitState := do
  if name = "Comment" then return { s with comment? := ← value.readOptional readString }
  else if name = "Seconds" then
    return { s with seconds? := ← value.readOptional (readCount greatestCount64) }
  else if name = "SecondsPath" then
    return { s with secondsPath? := ← value.readOptional readString }
  else if name = "Timestamp" then return { s with timestamp? := ← value.readOptional readString }
  else if name = "TimestampPath" then
    return { s with timestampPath? := ← value.readOptional readString }
  else if name = "InputPath" then return { s with input := ← value.readPathField }
  else if name = "OutputPath" then return { s with output := ← value.readPathField }
  else return s

/-- A Wait state without any field. -/
def blank : WaitState := ⟨none, none, none, none, none, .absent, .absent, ⟨none, false⟩⟩

/-- The Wait state of an object's entries. -/
def read (entries : List (String × Json)) : Except RecordError WaitState := do
  let s ← entries.foldlM (fun s e => s.readField e.1 e.2) blank
  return { s with transition := ← Transition.read entries }

end WaitState

namespace ParallelState

/-- A Parallel state with one more field read. -/
def readField (s : ParallelState) (name : String) (value : Json) :
    Except RecordError ParallelState := do
  if name = "Comment" then return { s with comment? := ← value.readOptional readString }
  else if name = "Branches" then return { s with branches := ← value.readItems }
  else return s

/-- A Parallel state without any field. -/
def blank : ParallelState := ⟨none, [], ⟨none, false⟩⟩

/-- The Parallel state of an object's entries. -/
def read (entries : List (String × Json)) : Except RecordError ParallelState := do
  let s ← entries.foldlM (fun s e => s.readField e.1 e.2) blank
  return { s with transition := ← Transition.read entries }

end ParallelState

/-- Entries for the items of an array that lists the fields of a record in order. -/
def namedItems (names : List String) (items : List Json) : List (String × Json) := names.zip items

namespace ChoiceState

/-- The fields in order. -/
def fields : List String := ["Comment", "Choices", "Default", "InputPath", "OutputPath"]

/-- The rules of a Choice state. -/
def readRules (value : Json) : Except RecordError (List Rule) := do
  (← value.readItems).mapM fun item =>
    match item with
    | .object _ => (Rule.read item).mapError .rule
    | _ => .error .wrongType

/-- A Choice state with one more field read. -/
def readField (s : ChoiceState) (name : String) (value : Json) :
    Except RecordError ChoiceState := do
  if name = "Comment" then return { s with comment? := ← value.readOptional readString }
  else if name = "Choices" then return { s with rules := ← readRules value }
  else if name = "Default" then return { s with default? := ← value.readOptional readString }
  else if name = "InputPath" then return { s with input := ← value.readPathField }
  else if name = "OutputPath" then return { s with output := ← value.readPathField }
  else return s

/-- A Choice state without any field. -/
def blank : ChoiceState := ⟨none, [], none, .absent, .absent⟩

/-- The Choice state of some entries, before it is known that all required fields are there. -/
def readFields (entries : List (String × Json)) : Except RecordError ChoiceState :=
  entries.foldlM (fun s e => s.readField e.1 e.2) blank

/-- The Choice state of an object's entries. -/
def read (entries : List (String × Json)) : Except RecordError ChoiceState := do
  let s ← readFields entries
  require entries "Choices"
  return s

/-- The Choice state of an array's items. -/
def readPositional (items : List Json) : Except RecordError ChoiceState := do
  let s ← readFields (namedItems fields items)
  if 2 ≤ items.length ∧ items.length ≤ fields.length then return s else .error .wrongLength

end ChoiceState

namespace FailState

/-- The fields in order. -/
def fields : List String := ["Comment", "Error", "Cause"]

/-- A Fail state with one more field read. -/
def readField (s : FailState) (name : String) (value : Json) : Except RecordError FailState := do
  if name = "Comment" then return { s with comment? := ← value.readOptional readString }
  else if name = "Error" then return { s with error? := ← value.readOptional readString }
  else if name = "Cause" then return { s with cause? := ← value.readOptional readString }
  else return s

/-- A Fail state without any field. -/
def blank : FailState := ⟨none, none, none⟩

/-- The Fail state of an object's entries. -/
def read (entries : List (String × Json)) : Except RecordError FailState :=
  entries.foldlM (fun s e => s.readField e.1 e.2) blank

/-- The Fail state of an array's items. -/
def readPositional (items : List Json) : Except RecordError FailState := do
  let s ← read (namedItems fields items)
  if items.length ≤ fields.length then return s else .error .wrongLength

end FailState

namespace SucceedState

/-- The fields in order. -/
def fields : List String := ["Comment", "InputPath", "OutputPath"]

/-- A Succeed state with one more field read. -/
def readField (s : SucceedState) (name : String) (value : Json) :
    Except RecordError SucceedState := do
  if name = "Comment" then return { s with comment? := ← value.readOptional readString }
  else if name = "InputPath" then return { s with input := ← value.readPathField }
  else if name = "OutputPath" then return { s with output := ← value.readPathField }
  else return s

/-- A Succeed state without any field. -/
def blank : SucceedState := ⟨none, .absent, .absent⟩

/-- The Succeed state of an object's entries. -/
def read (entries : List (String × Json)) : Except RecordError SucceedState :=
  entries.foldlM (fun s e => s.readField e.1 e.2) blank

/-- The Succeed state of an array's items. -/
def readPositional (items : List Json) : Except RecordError SucceedState := do
  let s ← read (namedItems fields items)
  if items.length ≤ fields.length then return s else .error .wrongLength

end SucceedState

/-! ## Reading machines and the states that hold them -/

namespace MapSettings

/-- The settings of a Map state with one more field read. -/
def readField (s : MapSettings) (name : String) (value : Json) :
    Except RecordError MapSettings := do
  if name = "Comment" then return { s with comment? := ← value.readOptional readString }
  else if name = "ItemsPath" then return { s with itemsPath? := ← value.readOptional readString }
  else if name = "ItemSelector" then return { s with itemSelector? := value.readDocument? }
  else if name = "Parameters" then return { s with parameters? := value.readDocument? }
  else if name = "MaxConcurrency" then
    return { s with maxConcurrency := ← value.readCount greatestCount32 }
  else if name = "InputPath" then return { s with input := ← value.readPathField }
  else if name = "ResultPath" then return { s with result := ← value.readPathField }
  else if name = "OutputPath" then return { s with output := ← value.readPathField }
  else return s

/-- Settings without any field. -/
def blank : MapSettings :=
  ⟨none, none, none, none, 0, .absent, .absent, .absent, ⟨none, false⟩⟩

end MapSettings

/-- The parts of a Map state that are read together. -/
structure MapParts where
  settings : MapSettings
  itemProcessor? : Option Machine
  iterator? : Option Machine

/-- The kind that a document names; inside a Map state it may also give its number. -/
def StateKind.read (nested : Bool) : Json → Except RecordError StateKind
  | .string name =>
    match StateKind.ofName? name with
    | some kind => .ok kind
    | none => .error (.unknownVariant name)
  | .number (.integer n) =>
    if nested ∧ 0 ≤ n then
      match StateKind.all[n.toNat]? with
      | some kind => .ok kind
      | none => .error .outOfRange
    else .error .wrongType
  | _ => .error .wrongType

namespace Machine

/-- The fields of a machine in order. -/
def fields : List String := ["Comment", "StartAt", "States", "TimeoutSeconds"]

/-- A machine with one more field read, the states aside. -/
def readPlainField (m : Machine) (name : String) (value : Json) : Except RecordError Machine := do
  if name = "Comment" then return { m with comment? := ← value.readOptional readString }
  else if name = "StartAt" then return { m with startAt := ← value.readString }
  else if name = "TimeoutSeconds" then
    return { m with timeout? := ← value.readOptional (readCount greatestCount64) }
  else return m

/-- A machine without any field. -/
def blank : Machine := ⟨none, "", [], none⟩

end Machine

mutual

/-- The machine that a document writes, by itself or inside a Map state. -/
def Machine.readIn (nested : Bool) : Json → Except RecordError Machine
  | .object entries => do
    let m ← Machine.readEntries nested Machine.blank entries
    require entries "StartAt"
    require entries "States"
    return m
  | .array items => do
    let m ← Machine.readPositional nested Machine.fields Machine.blank items
    if 3 ≤ items.length ∧ items.length ≤ Machine.fields.length then return m
    else .error .wrongLength
  | _ => .error .wrongType

/-- A machine with the entries of an object read in order. -/
def Machine.readEntries (nested : Bool) (m : Machine) :
    List (String × Json) → Except RecordError Machine
  | [] => .ok m
  | (name, value) :: rest => do
    Machine.readEntries nested (← Machine.readField nested m name value) rest

/-- A machine with the items of an array read in order, up to the last field. -/
def Machine.readPositional (nested : Bool) :
    List String → Machine → List Json → Except RecordError Machine
  | name :: names, m, value :: rest => do
    Machine.readPositional nested names (← Machine.readField nested m name value) rest
  | _, m, _ => .ok m

/-- A machine with one more field read. -/
def Machine.readField (nested : Bool) (m : Machine) (name : String) :
    Json → Except RecordError Machine
  | .object entries => do
    if name = "States" then return { m with states := ← State.readEntries nested entries }
    else m.readPlainField name (.object entries)
  | value => if name = "States" then .error .wrongType else m.readPlainField name value

/-- The states of a table, in order. -/
def State.readEntries (nested : Bool) :
    List (String × Json) → Except RecordError (List (String × State))
  | [] => .ok []
  | (name, value) :: rest => do
    let state ← State.readIn nested value
    return (name, state) :: (← State.readEntries nested rest)

/-- The state that a document writes, by itself or inside a Map state. -/
def State.readIn (nested : Bool) : Json → Except RecordError State
  | .object entries => do
    match Entries.get? entries "Type" with
    | none => .error (.missingField "Type")
    -- the kind is known before any other field is read
    | some type =>
      match ← StateKind.read nested type with
      | .pass => return .pass (← PassState.read entries)
      | .task => return .task (← TaskState.read entries)
      | .wait => return .wait (← WaitState.read entries)
      | .choice => return .choice (← ChoiceState.read entries)
      | .fail => return .fail (← FailState.read entries)
      | .succeed => return .succeed (← SucceedState.read entries)
      | .parallel => return .parallel (← ParallelState.read entries)
      | .map =>
        let parts ← MapParts.readEntries ⟨MapSettings.blank, none, none⟩ entries
        let transition ← Transition.read entries
        return .map { parts.settings with transition } parts.itemProcessor? parts.iterator?
  | .array [] => .error (.missingField "Type")
  | .array (type :: items) => do
    match ← StateKind.read nested type with
    | .choice => return .choice (← ChoiceState.readPositional items)
    | .fail => return .fail (← FailState.readPositional items)
    | .succeed => return .succeed (← SucceedState.readPositional items)
    | _ => .error .wrongType
  | _ => .error .wrongType

/-- The parts of a Map state with the entries of an object read in order. -/
def MapParts.readEntries (parts : MapParts) : List (String × Json) → Except RecordError MapParts
  | [] => .ok parts
  | (name, value) :: rest => do
    if name = "ItemProcessor" then
      match value with
      | .null => MapParts.readEntries { parts with itemProcessor? := none } rest
      | document =>
        let m ← Machine.readIn true document
        MapParts.readEntries { parts with itemProcessor? := some m } rest
    else if name = "Iterator" then
      match value with
      | .null => MapParts.readEntries { parts with iterator? := none } rest
      | document =>
        let m ← Machine.readIn true document
        MapParts.readEntries { parts with iterator? := some m } rest
    else
      let settings ← parts.settings.readField name value
      MapParts.readEntries { parts with settings } rest

end

/-- The machine that a document writes. -/
def Machine.read (document : Json) : Except RecordError Machine := Machine.readIn false document

/-- The state that a document writes. -/
def State.read (document : Json) : Except RecordError State := State.readIn false document

/-! ## Writing -/

/-- The entries of a transition. -/
def Transition.entries (t : Transition) : List (String × Json) :=
  entryOf "Next" string t.next? ++ (if t.ends then [("End", boolean true)] else [])

namespace PassState

/-- The entries of a Pass state. -/
def entries (s : PassState) : List (String × Json) :=
  entryOf "Comment" string s.comment? ++ pathEntry "InputPath" s.input ++
    entryOf "Parameters" id s.parameters? ++ pathEntry "ResultPath" s.result ++
    pathEntry "OutputPath" s.output ++ s.transition.entries

end PassState

namespace TaskState

/-- The entries of a Task state. -/
def entries (s : TaskState) : List (String × Json) :=
  entryOf "Comment" string s.comment? ++ [("Resource", string s.resource)] ++
    pathEntry "InputPath" s.input ++ entryOf "Parameters" id s.parameters? ++
    pathEntry "ResultPath" s.result ++ pathEntry "OutputPath" s.output ++
    entryOf "TimeoutSeconds" ofNat s.timeout? ++ s.transition.entries

end TaskState

namespace WaitState

/-- The entries of a Wait state. -/
def entries (s : WaitState) : List (String × Json) :=
  entryOf "Comment" string s.comment? ++ entryOf "Seconds" ofNat s.seconds? ++
    entryOf "SecondsPath" string s.secondsPath? ++ entryOf "Timestamp" string s.timestamp? ++
    entryOf "TimestampPath" string s.timestampPath? ++ pathEntry "InputPath" s.input ++
    pathEntry "OutputPath" s.output ++ s.transition.entries

end WaitState

namespace ChoiceState

/-- The entries of a Choice state. -/
def entries (s : ChoiceState) : List (String × Json) :=
  entryOf "Comment" string s.comment? ++ [("Choices", array (s.rules.map Rule.toJson))] ++
    entryOf "Default" string s.default? ++ pathEntry "InputPath" s.input ++
    pathEntry "OutputPath" s.output

end ChoiceState

namespace FailState

/-- The entries of a Fail state. -/
def entries (s : FailState) : List (String × Json) :=
  entryOf "Comment" string s.comment? ++ entryOf "Error" string s.error? ++
    entryOf "Cause" string s.cause?

end FailState

namespace SucceedState

/-- The entries of a Succeed state. -/
def entries (s : SucceedState) : List (String × Json) :=
  entryOf "Comment" string s.comment? ++ pathEntry "InputPath" s.input ++
    pathEntry "OutputPath" s.output

end SucceedState

namespace ParallelState

/-- The entries of a Parallel state. -/
def entries (s : ParallelState) : List (String × Json) :=
  entryOf "Comment" string s.comment? ++ [("Branches", array s.branches)] ++ s.transition.entries

end ParallelState

namespace MapSettings

/-- The entries of a Map state, its machines given as documents. -/
def entries (s : MapSettings) (itemProcessor? iterator? : Option Json) : List (String × Json) :=
  entryOf "Comment" string s.comment? ++ entryOf "ItemsPath" string s.itemsPath? ++
    entryOf "ItemProcessor" id itemProcessor? ++ entryOf "Iterator" id iterator? ++
    entryOf "ItemSelector" id s.itemSelector? ++ entryOf "Parameters" id s.parameters? ++
    [("MaxConcurrency", ofNat s.maxConcurrency)] ++ pathEntry "InputPath" s.input ++
    pathEntry "ResultPath" s.result ++ pathEntry "OutputPath" s.output ++ s.transition.entries

end MapSettings

/-- The object of a state of a kind. -/
def State.tagged (kind : StateKind) (entries : List (String × Json)) : Json :=
  object (("Type", string kind.name) :: entries)

mutual

/-- The document of a machine. -/
def Machine.toJson : Machine → Json
  | ⟨comment?, startAt, states, timeout?⟩ =>
    object (entryOf "Comment" string comment? ++ [("StartAt", string startAt)] ++
      [("States", object (State.toEntries states))] ++ entryOf "TimeoutSeconds" ofNat timeout?)

/-- The documents of the states of a table. -/
def State.toEntries : List (String × State) → List (String × Json)
  | [] => []
  | (name, state) :: rest => (name, state.toJson) :: State.toEntries rest

/-- The document of a state. -/
def State.toJson : State → Json
  | .pass s => State.tagged .pass s.entries
  | .task s => State.tagged .task s.entries
  | .wait s => State.tagged .wait s.entries
  | .choice s => State.tagged .choice s.entries
  | .fail s => State.tagged .fail s.entries
  | .succeed s => State.tagged .succeed s.entries
  | .parallel s => State.tagged .parallel s.entries
  | .map settings itemProcessor? iterator? =>
    State.tagged .map
      (settings.entries (Machine.toJson? itemProcessor?) (Machine.toJson? iterator?))

/-- The document of a machine that may be there. -/
def Machine.toJson? : Option Machine → Option Json
  | none => none
  | some m => some m.toJson

end

end StateFlow
