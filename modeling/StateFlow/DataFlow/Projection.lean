import StateFlow.Path.Resolve

/-!
# Input and output paths

`InputPath` selects what a state sees of its input, `OutputPath` what it hands on.  An absent field
passes the document through, an explicit null selects the empty object.
-/

namespace StateFlow

/-- A path field of a state, where an explicit null differs from absence. -/
inductive PathField where
  | absent
  | null
  | path (expression : String)
deriving DecidableEq, Repr, Inhabited

namespace PathField

/-- Applies an `InputPath` or `OutputPath`. -/
def project (document : Json) : PathField → Except Fault Json
  | absent => .ok document
  | null => .ok Json.empty
  | path expression => resolvePayload document expression

end PathField

end StateFlow
