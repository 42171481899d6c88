import StateFlow.Choice.Rule
import StateFlow.Json.Printer

/-!
# Choice rules as documents

A rule is written as a flat object: `Variable` and `Next` where present, and one entry whose name is
the operator.  `Rule.read` accepts exactly such objects, a `Comment` aside, and `Rule.toJson` writes
a rule back.

When an object has several further entries the first of them counts as the operator and the others
are reported after it.  `Variable`, `Next` and `Comment` leave the object in that order, each
replaced by the last entry, and the report follows the order that results.
-/

namespace StateFlow

/-- What a field of a rule should have held. -/
inductive ExpectedValue where
  | string
  | rules
  | rule
  | boolean
  | path
  | timestamp
  | number
deriving DecidableEq, Repr, Inhabited

/-- Why an object is not a rule. -/
inductive RuleError where
  | missingOperator
  | multipleOperators (first : String) (others : List String)
  | invalidField (field : String) (expected : ExpectedValue)
  | unsupportedOperator (name : String)
deriving DecidableEq, Repr, Inhabited

namespace ExpectedValue

/-- The expectation in words. -/
def words : ExpectedValue → String
  | string => "a string"
  | rules => "an array of rules"
  | rule => "an object"
  | boolean => "a boolean"
  | path => "a path string"
  | timestamp => "a timestamp string"
  | number => "a number"

end ExpectedValue

namespace RuleError

/-- The text of an error. -/
def message : RuleError → String
  | missingOperator => "choice rule has no comparison operator"
  | multipleOperators first others =>
    s!"choice rule has more than one comparison operator: {first}, " ++ ", ".intercalate others
  | invalidField field expected => s!"choice rule field '{field}' must be {expected.words}"
  | unsupportedOperator name => s!"unsupported choice operator '{name}'"

end RuleError

namespace ValueKind

/-- What a literal of a kind must be. -/
def expectedLiteral : ValueKind → ExpectedValue
  | string => .string
  | numeric => .number
  | boolean => .boolean
  | timestamp => .timestamp

/-- True of the documents that may stand as a literal of a kind. -/
def admits : ValueKind → Json → Bool
  | string, .string _ | timestamp, .string _ => true
  | numeric, .number _ => true
  | boolean, .boolean _ => true
  | _, _ => false

end ValueKind

namespace Rule

/-! ## Operators -/

/-- What follows a word at the start of a text. -/
def afterWord? (word text : List Char) : Option (List Char) :=
  if word.isPrefixOf text then some (text.drop word.length) else none

/-- The text before the ending `Path`, when it has that ending. -/
def beforePath? (text : List Char) : Option (List Char) :=
  if "Path".toList.isSuffixOf text then some (text.take (text.length - 4)) else none

/-- The kind and relation that a word names; booleans are only compared for equality. -/
def comparison? (word : List Char) : Option (ValueKind × Relation) := do
  let (kind, rest) ← ValueKind.all.findSome? fun kind =>
    (afterWord? kind.word.toList word).map (kind, ·)
  let relation ← Relation.all.find? fun relation => relation.word.toList = rest
  if kind = .boolean ∧ relation ≠ .equals then none else some (kind, relation)

/-- The comparison that an operator and its operand make. -/
def readComparison (operator : String) (operand : Json) : Except RuleError Test :=
  let (word, isPath) := match beforePath? operator.toList with
    | some word => (word, true)
    | none => (operator.toList, false)
  match comparison? word with
  | none => .error (.unsupportedOperator operator)
  | some (kind, relation) =>
    if isPath then
      match operand with
      | .string expression => .ok (.compare kind relation (.path expression))
      | _ => .error (.invalidField operator .path)
    else if kind.admits operand then .ok (.compare kind relation (.literal operand))
    else .error (.invalidField operator kind.expectedLiteral)

/-- The single test that an operator and its operand make. -/
def readTest (operator : String) (operand : Json) : Except RuleError Test :=
  if operator = "StringMatches" then
    match operand with
    | .string pattern => .ok (.like pattern)
    | _ => .error (.invalidField operator .string)
  else match TypeTest.all.find? (·.word = operator) with
    | some typeTest =>
      match operand with
      | .boolean expected => .ok (.type typeTest expected)
      | _ => .error (.invalidField operator .boolean)
    | none => readComparison operator operand

/-! ## Reading -/

/-- An entry's value together with what it makes as a nested rule and as a list of rules. -/
structure Reading where
  value : Json
  rule : Except RuleError Rule
  rules : Except RuleError (List Rule)

/-- The text of an optional string entry. -/
def optionalString (entries : List (String × Reading)) (field : String) :
    Except RuleError (Option String) :=
  match Entries.get? entries field with
  | none => .ok none
  | some ⟨.string s, _, _⟩ => .ok (some s)
  | some _ => .error (.invalidField field .string)

/-- The rule that an operator makes of its operand. -/
def ofOperator (frame : RuleFrame) (operator : String) (operand : Reading) :
    Except RuleError Rule :=
  if operator = "And" then return .and frame (← operand.rules)
  else if operator = "Or" then return .or frame (← operand.rules)
  else if operator = "Not" then return .not frame (← operand.rule)
  else return .test frame (← readTest operator operand.value)

/-- The rule that the entries of an object make. -/
def ofEntries (entries : List (String × Reading)) : Except RuleError Rule := do
  let subject? ← optionalString entries "Variable"
  let entries := Entries.swapRemove entries "Variable"
  let next? ← optionalString entries "Next"
  let entries := Entries.swapRemove (Entries.swapRemove entries "Next") "Comment"
  match entries with
  | [] => .error .missingOperator
  | [(operator, operand)] => ofOperator ⟨subject?, next?⟩ operator operand
  | (operator, _) :: others => .error (.multipleOperators operator (Entries.keys others))

mutual

/-- The rule that a document writes. -/
def read : Json → Except RuleError Rule
  | .object entries => ofEntries (readEntries entries)
  | _ => .error (.invalidField "rule" .rule)

/-- The rules that the items of an array write; the first error counts. -/
def readItems : List Json → Except RuleError (List Rule)
  | [] => .ok []
  | x :: xs => do
    let rule ← read x
    return rule :: (← readItems xs)

/-- The rules that the operand of `And` or `Or` writes. -/
def readRules (operator : String) : Json → Except RuleError (List Rule)
  | .array items => readItems items
  | _ => .error (.invalidField operator .rules)

/-- Each value with what it makes as a rule and as a list of rules. -/
def readEntries : List (String × Json) → List (String × Reading)
  | [] => []
  | (name, value) :: rest => (name, ⟨value, read value, readRules name value⟩) :: readEntries rest

end

/-! ## Writing -/

/-- The operand of a single test. -/
def operandOf : Test → Json
  | .compare _ _ (.literal value) => value
  | .compare _ _ (.path expression) => .string expression
  | .like pattern => .string pattern
  | .type _ expected => .boolean expected

/-- The object of a rule, from its operator and operand. -/
def assemble (frame : RuleFrame) (operator : String) (operand : Json) : Json :=
  .object (
    (match frame.subject? with | some v => [("Variable", .string v)] | none => []) ++
    [(operator, operand)] ++
    (match frame.next? with | some n => [("Next", .string n)] | none => []))

mutual

/-- The document of a rule. -/
def toJson : Rule → Json
  | and frame rules => assemble frame "And" (.array (toItems rules))
  | or frame rules => assemble frame "Or" (.array (toItems rules))
  | not frame rule => assemble frame "Not" rule.toJson
  | test frame t => assemble frame t.operator (operandOf t)

/-- The documents of rules. -/
def toItems : List Rule → List Json
  | [] => []
  | r :: rs => r.toJson :: toItems rs

end

end Rule

end StateFlow
