import StateFlow.DataFlow.Projection

/-!
# Result paths

`ResultPath` says where the result of a state goes in its input: everywhere when absent or `$`,
nowhere when null, and otherwise into one field, with the objects on the way created as needed and
all other fields kept.
-/

namespace StateFlow

namespace Json

/-- The entries of an object; nothing of any other document. -/
def entriesOrNone (document : Json) : List (String × Json) := document.entries?.getD []

/-- Writes a value at a place, making objects of what stands in the way. -/
def put : Json → List String → Json → Json
  | _, [], value => value
  | document, name :: names, value =>
    -- what is not an object gives way to one
    let entries := document.entriesOrNone
    object (Entries.insert entries name (put ((Entries.get? entries name).getD null) names value))

end Json

namespace PathField

/-- Merges the result of a state into the state's input. -/
def merge (input result : Json) : PathField → Except Fault Json
  | absent => .ok result
  | null => .ok input
  | path expression => do
    let target ← readPath expression
    if target.isContext then .error (.unsupportedPath expression .contextTarget)
    else .ok (input.put target.names result)

end PathField

end StateFlow
