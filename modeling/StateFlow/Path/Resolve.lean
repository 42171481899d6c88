import StateFlow.Fault

/-!
# Resolving expressions

`resolve` reads an expression against a payload and a context object; `resolvePayload` refuses
expressions that read the context.  Both fail with the expression as it was written.
-/

namespace StateFlow

/-- The path that an expression writes. -/
def readPath (expression : String) : Except Fault Path :=
  match Path.read expression with
  | .ok path => .ok path
  | .error flaw => .error (.unsupportedPath expression flaw)

/-- The value at a path's names, or the fault that names the expression. -/
def follow (document : Json) (path : Path) (expression : String) : Except Fault Json :=
  match document.walk? path.names with
  | some value => .ok value
  | none => .error (.pathNotFound expression)

/-- The value of an expression, read from the payload or from the context object. -/
def resolve (payload context : Json) (expression : String) : Except Fault Json := do
  let path ← readPath expression
  match path.root with
  | .payload => follow payload path expression
  | .context => follow context path expression

/-- The value of an expression that may only read the payload. -/
def resolvePayload (payload : Json) (expression : String) : Except Fault Json := do
  let path ← readPath expression
  if path.isContext then .error (.unsupportedPath expression .contextNotAllowed)
  else follow payload path expression

end StateFlow
