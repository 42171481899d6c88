import StateFlow.CommandLine.Parameter
import StateFlow.Number.Basic

/-!
# Matching arguments with parameters

The arguments of a level are matched one after the other.  A value is taken for what it is as soon
as it is read, but checked only when the next parameter begins or the level ends; where an argument
matches nothing, that counts and not the values before it.  A subcommand ends its level, and the
level is completed after the subcommand's own.
-/

namespace StateFlow.CommandLine

/-- What has been matched at a level. -/
structure Matched where
  /-- The values of the parameters that were given. -/
  values : List (String × List String)
  /-- The parameter whose values are not checked yet. -/
  pending? : Option (Parameter × List String)
  /-- The parameter that the next argument is a value of. -/
  awaiting? : Option Parameter
  /-- Two hyphens have been read, after which nothing has a name. -/
  trailing : Bool
  positionals : Nat
deriving Repr, Inhabited

namespace Matched

/-- Nothing matched. -/
def none : Matched := ⟨[], .none, .none, false, 0⟩

/-- The values of a parameter that was given. -/
def get? (m : Matched) (name : String) : Option (List String) :=
  (m.values.find? (·.1 = name)).map (·.2)

/-- The value of a parameter that was given. -/
def first? (m : Matched) (name : String) : Option String := (m.get? name).bind List.head?

/-- True of a parameter that was given. -/
def has (m : Matched) (name : String) : Bool := (m.get? name).isSome

end Matched

/-- The count that a value writes. -/
def readCount? (value : String) : Option Nat :=
  let digits := match value.toList with
    | '+' :: ds => ds
    | ds => ds
  if digits = [] ∨ !digits.all Number.isDigit then none
  else
    let n := Number.natOfDigits digits
    if n ≤ 0xFFFFFFFFFFFFFFFF then some n else none

/-- Checks the values of a parameter. -/
def ValueKind.check (kind : ValueKind) (values : List String) : Except UsageError Unit :=
  match kind with
  | .text => .ok ()
  | .path => if values.any (· = "") then .error .invalidValue else .ok ()
  | .count => if values.all (readCount? · |>.isSome) then .ok () else .error .valueValidation

namespace Matched

/-- Records a parameter with its values. -/
def record (m : Matched) (p : Parameter) (values : List String) : Except UsageError Matched := do
  if p.takesValue ∧ values = [] then .error .invalidValue
  else match p.action with
  | .help => .error .help
  | .append =>
    p.kind.check values
    let all := (m.get? p.name).getD [] ++ values
    return { m with values := (p.name, all) :: m.values.filter fun v => decide (v.1 ≠ p.name) }
  | .set | .flag =>
    if m.has p.name then .error .argumentConflict
    else
      p.kind.check values
      return { m with values := (p.name, values) :: m.values }

/-- Checks and records the values that are not checked yet. -/
def settle (m : Matched) : Except UsageError Matched :=
  match m.pending? with
  | .none => .ok m
  | some (p, values) => record { m with pending? := .none } p values

/-- Records a parameter after the one before it. -/
def give (m : Matched) (p : Parameter) (values : List String) : Except UsageError Matched := do
  record (← m.settle) p values

/-- A parameter with the value that is attached to it, or before its value. -/
def begin (m : Matched) (p : Parameter) (attached? : Option String) :
    Except UsageError Matched := do
  match attached? with
  | some value => return { ← m.give p [value] with awaiting? := .none }
  | .none => return { ← m.settle with pending? := some (p, []), awaiting? := some p }

/-- The value that a parameter awaits. -/
def takeValue (m : Matched) (value : String) : Matched :=
  { m with
    pending? := m.pending?.map fun (p, values) => (p, values ++ [value])
    awaiting? := .none }

/-- True where an argument is a value although it starts with a hyphen. -/
def takesHyphens (m : Matched) : Bool :=
  match m.awaiting? with
  | some p => p.hyphens
  | .none => false

/-- An argument after two hyphens. -/
def long (l : Level) (m : Matched) (argument : List Char) : Except UsageError Matched := do
  let name := argument.takeWhile (· ≠ '=')
  let attached? := match argument.drop name.length with
    | _ :: value => some (String.ofList value)
    | [] => .none
  match l.long? (String.ofList name) with
  | .none => .error .unknownArgument
  | some p =>
    if p.takesValue then m.begin p attached?
    else if attached?.isSome then .error .tooManyValues
    else return { ← m.give p [] with awaiting? := .none }

/-- Letters after one hyphen, of which the first that takes a value has the rest for its value. -/
def shorts (l : Level) : Matched → List Char → Except UsageError Matched
  | m, [] => .ok { m with awaiting? := .none }
  | m, letter :: rest =>
    match l.short? letter with
    | .none => .error .unknownArgument
    | some p =>
      if p.takesValue then
        m.begin p (match rest with
          | [] => .none
          | '=' :: value => some (String.ofList value)
          | value => some (String.ofList value))
      else do shorts l (← m.give p []) rest

/-- An argument without a name. -/
def unnamed (l : Level) (m : Matched) (argument : String) : Except UsageError Matched :=
  match l.positional? with
  | some p =>
    if m.positionals = 0 then do
      return { ← m.settle with
        pending? := some (p, [argument]), awaiting? := .none, positionals := 1 }
    else .error .unknownArgument
  | .none =>
    if l.subcommands = [] ∨ (m.trailing ∧ argument ∈ l.subcommands) then .error .unknownArgument
    else .error .invalidSubcommand

/-- An argument that is not a subcommand. -/
def argument (l : Level) (m : Matched) (text : String) : Except UsageError Matched :=
  if m.trailing then m.unnamed l text
  else if m.takesHyphens then .ok (m.takeValue text)
  else match text.toList with
    | ['-', '-'] => .ok { m with trailing := true }
    | '-' :: '-' :: name => m.long l name
    | '-' :: letter :: letters => m.shorts l (letter :: letters)
    | _ => if m.awaiting?.isSome then .ok (m.takeValue text) else m.unnamed l text

end Matched

/-- Matches arguments up to a subcommand, which is returned with the arguments after it. -/
def matchLevel (l : Level) : Matched → List String →
    Except UsageError (Matched × Option (String × List String))
  | m, [] => .ok (m, none)
  | m, text :: rest =>
    if !m.trailing ∧ m.awaiting?.isNone ∧ text ∈ l.subcommands then .ok (m, some (text, rest))
    else do matchLevel l (← m.argument l text) rest

/-- Checks what a level must and must not hold together. -/
def validate (l : Level) (m : Matched) : Except UsageError Unit :=
  if l.exclusive.any fun (p, q) => m.has p && m.has q then .error .argumentConflict
  else match l.positional? with
    | some p => if m.has p.name then .ok () else .error .missingArgument
    | none => .ok ()

/-- Completes a level that named a subcommand or not. -/
def complete (l : Level) (m : Matched) (named : Bool) : Except UsageError Matched := do
  let m ← m.settle
  if l.subcommands ≠ [] ∧ !named then
    .error (if m.values = [] then .nothingGiven else .missingSubcommand)
  else
    validate l m
    return m

end StateFlow.CommandLine
