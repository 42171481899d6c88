import StateFlow.Json.Reader
import StateFlow.Text.Blank

/-!
# The output of a handler

A handler program prints its result, and may print other things before it.  The whole output is
taken as a document where it is one; otherwise the last line that is a document counts.  Blank
output is null.
-/

namespace StateFlow.Handler

/-- The document of a line, blanks at its ends aside. -/
def readLine? (line : List Char) : Option Json := Json.readWithin? Json.maxDepth (Text.trim line)

/-- The result that an output holds. -/
def readOutput? (output : String) : Option Json :=
  let trimmed := Text.trim output.toList
  if trimmed.isEmpty then some .null
  else match Json.readWithin? Json.maxDepth trimmed with
  | some document => some document
  -- the last line that is a document
  | none => (Text.lines trimmed).reverse.findSome? readLine?

/-- The message of an output that holds no result. -/
def noDocumentMessage : String := "no JSON document found in output"

end StateFlow.Handler
