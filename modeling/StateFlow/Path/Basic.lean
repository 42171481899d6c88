import StateFlow.Json.Basic

/-!
# Reference paths

A reference path names a place in a document: `$` is the whole payload, `$.a.b` a nested field, and
`$$` in place of `$` reads the context object instead.  Names match exactly; arrays are not entered.

`Path.read` accepts exactly the texts that `Path.text` writes for paths of proper names, and
`Json.walk?` follows the names of a path.  Walking a path made of two parts is walking the one and
then the other (`walk?_append`).
-/

namespace StateFlow

/-- The document that a path starts from. -/
inductive Root where
  | payload
  | context
deriving DecidableEq, Repr, Inhabited

/-- A reference path. -/
structure Path where
  root : Root
  names : List String
deriving DecidableEq, Repr, Inhabited

/-- What is wrong with an expression that should be a path, or with the place where it stands. -/
inductive PathFlaw where
  /-- It does not start with the root marker. -/
  | noMarker
  /-- The root marker is followed by something other than a dot. -/
  | notDotted
  /-- A name between two dots is empty. -/
  | emptyName
  /-- A name holds a character of a richer path language. -/
  | unsupported (c : Char)
  /-- The context object cannot be read here. -/
  | contextNotAllowed
  /-- A result cannot be written into the context object. -/
  | contextTarget
  /-- A template entry does not hold an expression. -/
  | notText (name : String)
  /-- A comparison names nothing to compare. -/
  | noVariable
deriving DecidableEq, Repr, Inhabited

namespace PathFlaw

/-- The reason as diagnostics give it. -/
def message : PathFlaw → String
  | noMarker => "expression must start with '$'"
  | notDotted => "only dotted field references are supported"
  | emptyName => "empty field name or recursive descent"
  | unsupported c => s!"'{c}' is not supported"
  | contextNotAllowed => "context references are not allowed here"
  | contextTarget => "ResultPath cannot target the context object"
  | notText name => s!"the value of '{name}' must be a path string"
  | noVariable => "comparison requires a Variable"

end PathFlaw

namespace Path

/-- Characters that no name may hold besides the dot. -/
def isReserved (c : Char) : Bool :=
  c = '[' || c = ']' || c = '*' || c = '?' || c = '@' || c = '(' || c = ')'

/-- The pieces between the dots of a text; there is always at least one. -/
def pieces : List Char → List (List Char)
  | [] => [[]]
  | c :: cs =>
    if c = '.' then [] :: pieces cs
    else match pieces cs with
      | [] => [[c]]
      | p :: ps => (c :: p) :: ps

/-- A piece as a name: not empty and free of reserved characters. -/
def nameOf (piece : List Char) : Except PathFlaw String :=
  if piece = [] then .error .emptyName
  else match piece.find? isReserved with
    | some c => .error (.unsupported c)
    | none => .ok (String.ofList piece)

/-- Pieces as names; the first flaw counts. -/
def namesOf : List (List Char) → Except PathFlaw (List String)
  | [] => .ok []
  | p :: ps => do return (← nameOf p) :: (← namesOf ps)

/-- What follows the root marker: nothing, or a dot and names with dots between them. -/
def readNames : List Char → Except PathFlaw (List String)
  | [] => .ok []
  | '.' :: cs => namesOf (pieces cs)
  | _ :: _ => .error .notDotted

/-- Reads an expression. -/
def readChars : List Char → Except PathFlaw Path
  | '$' :: '$' :: cs => do return ⟨.context, ← readNames cs⟩
  | '$' :: cs => do return ⟨.payload, ← readNames cs⟩
  | _ => .error .noMarker

/-- Reads an expression. -/
def read (expression : String) : Except PathFlaw Path := readChars expression.toList

/-- The marker of a root. -/
def marker : Root → List Char
  | .payload => ['$']
  | .context => ['$', '$']

/-- The expression of a path. -/
def chars (p : Path) : List Char := marker p.root ++ p.names.flatMap fun s => '.' :: s.toList

/-- The expression of a path. -/
def text (p : Path) : String := String.ofList p.chars

/-- True when the path names its whole document. -/
def isRoot (p : Path) : Bool := p.names.isEmpty

/-- True when the path reads the context object. -/
def isContext (p : Path) : Bool := p.root == .context

/-- A name that a path can hold. -/
def ProperName (s : String) : Prop := s.toList ≠ [] ∧ ∀ c ∈ s.toList, c ≠ '.' ∧ isReserved c = false

end Path

namespace Json

/-- Follows names into nested objects. -/
def walk? : Json → List String → Option Json
  | document, [] => some document
  | document, name :: names => (document.field? name).bind (walk? · names)

@[simp] theorem walk?_nil (document : Json) : document.walk? [] = some document := by
  cases document <;> rfl

theorem walk?_cons (document : Json) (name : String) (names : List String) :
    document.walk? (name :: names) = (document.field? name).bind (walk? · names) := by
  cases document <;> rfl

theorem walk?_append (document : Json) (p q : List String) :
    document.walk? (p ++ q) = (document.walk? p).bind (walk? · q) := by
  induction p generalizing document with
  | nil => simp
  | cons name p ih =>
    simp only [List.cons_append, walk?_cons]
    cases document.field? name <;> simp [ih]

end Json

end StateFlow
