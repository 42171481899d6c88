/-!
# Parameters of a command line

A command line has levels: the program itself, and the subcommand that it names.  A level has
parameters, which are written after one or two hyphens, and may have one value without a name.
-/

namespace StateFlow.CommandLine

/-- What becomes of a parameter that is given. -/
inductive Action where
  /-- Keeps its value and may come once. -/
  | set
  /-- Keeps all its values. -/
  | append
  /-- Takes no value and may come once. -/
  | flag
  /-- Asks for help. -/
  | help
deriving DecidableEq, Repr, Inhabited

/-- What a value must be. -/
inductive ValueKind where
  | text
  /-- A path, which is not empty. -/
  | path
  /-- A count of 64 bits. -/
  | count
deriving DecidableEq, Repr, Inhabited

/-- A parameter. -/
structure Parameter where
  name : String
  short? : Option Char
  action : Action
  kind : ValueKind
  /-- A value may start with a hyphen. -/
  hyphens : Bool
deriving DecidableEq, Repr, Inhabited

namespace Parameter

/-- A parameter with one value. -/
def single (name : String) (short? : Option Char) (kind : ValueKind) : Parameter :=
  ⟨name, short?, .set, kind, false⟩

/-- True of parameters that have values. -/
def takesValue (p : Parameter) : Bool := p.action = .set || p.action = .append

end Parameter

/-- A level of a command line. -/
structure Level where
  parameters : List Parameter
  /-- The value without a name, which must then be there. -/
  positional? : Option Parameter
  /-- Parameters that exclude each other. -/
  exclusive : List (String × String)
  /-- The subcommands, of which one must be named if there are some. -/
  subcommands : List String
deriving Repr, Inhabited

namespace Level

/-- The parameter of a name after two hyphens. -/
def long? (l : Level) (name : String) : Option Parameter := l.parameters.find? (·.name = name)

/-- The parameter of a letter after one hyphen. -/
def short? (l : Level) (letter : Char) : Option Parameter :=
  l.parameters.find? (·.short? = some letter)

end Level

/-- What is wrong with a command line, or that it asks for help. -/
inductive UsageError where
  | unknownArgument
  | invalidSubcommand
  | missingSubcommand
  /-- A parameter is repeated, or stands beside one that excludes it. -/
  | argumentConflict
  | missingArgument
  /-- A value is missing, or empty where it may not be. -/
  | invalidValue
  /-- A value is not of its kind. -/
  | valueValidation
  /-- A parameter without values has one. -/
  | tooManyValues
  | help
  /-- Nothing is given. -/
  | nothingGiven
deriving DecidableEq, Repr, Inhabited

/-- The status with which a program ends that was called so. -/
def UsageError.status : UsageError → Nat
  | help => 0
  | _ => 2

end StateFlow.CommandLine
