import StateFlow.Json.Printer
import StateFlow.Path.Resolve

/-!
# Parameter templates

A template is a document in which an entry `"key.$"` stands for an entry `"key"` whose value an
expression selects from the payload or the context object.  `Template.fill` replaces such entries
at every depth of objects and arrays and copies everything else.

A callback task gives its function only the `Payload` of its template, and the template may hold
only the fields of the invocation it stands for (`Template.callbackPayload`).
-/

namespace StateFlow.Template

/-- The name that an entry `"name.$"` fills; `none` for a literal entry. -/
def filledName? (key : String) : Option String :=
  match key.toList.reverse with
  | '$' :: '.' :: rest => some (String.ofList rest.reverse)
  | _ => none

/-- The name of the entry that a template key produces. -/
def producedName (key : String) : String := (filledName? key).getD key

/-- The value that the expression of an entry `"key.$"` selects. -/
def select (payload context : Json) (key : String) : Json → Except Fault Json
  | .string expression => resolve payload context expression
  | other => .error (.unsupportedPath other.compact (.notText key))

mutual

/-- The document that a template stands for. -/
def fill (payload context : Json) : Json → Except Fault Json
  | .object entries => do
    return .object (Entries.ofPairs (← fillEntries payload context entries))
  | .array items => do return .array (← fillItems payload context items)
  | literal => .ok literal

/-- Items filled in order; the first fault counts. -/
def fillItems (payload context : Json) : List Json → Except Fault (List Json)
  | [] => .ok []
  | x :: xs => do
    let value ← fill payload context x
    return value :: (← fillItems payload context xs)

/-- Entries filled in order; the first fault counts. -/
def fillEntries (payload context : Json) :
    List (String × Json) → Except Fault (List (String × Json))
  | [] => .ok []
  | (key, template) :: rest => do
    let value ← match filledName? key with
      | some _ => select payload context key template
      | none => fill payload context template
    return (producedName key, value) :: (← fillEntries payload context rest)

end

/-- The effective input of a state: the payload itself without a template. -/
def effectiveInput (payload context : Json) : Option Json → Except Fault Json
  | none => .ok payload
  | some template => fill payload context template

/-! ## Callback tasks -/

/-- The field that names the function of a callback task. -/
def functionName : String := "FunctionName"

/-- The field that holds the function's input. -/
def payloadName : String := "Payload"

/-- The fields that the template of a callback task may produce. -/
def callbackFields : List String :=
  [functionName, payloadName, "InvocationType", "Qualifier", "ClientContext"]

/-- The fault of a template that names no function or holds a foreign field, if there is one. -/
def callbackFault? (entries : List (String × Json)) : Option Fault :=
  let names := (Entries.keys entries).map producedName
  if functionName ∉ names then some (.missingField functionName)
  else (names.find? (· ∉ callbackFields)).map .unsupportedField

/-- The payload entries of a template, filled in order; the last one counts. -/
def fillPayload (payload context : Json) (last : Json) :
    List (String × Json) → Except Fault Json
  | [] => .ok last
  | (key, template) :: rest => do
    if producedName key = payloadName then
      let value ← match filledName? key with
        | some _ => select payload context key template
        | none => fill payload context template
      fillPayload payload context value rest
    else fillPayload payload context last rest

/-- The function input of a callback task: its filled `Payload`, or the empty object. -/
def callbackPayload (payload context : Json) : Option Json → Except Fault Json
  | some (.object entries) =>
    match callbackFault? entries with
    | some fault => .error fault
    | none => fillPayload payload context Json.empty entries
  | _ => .error (.missingField functionName)

end StateFlow.Template
