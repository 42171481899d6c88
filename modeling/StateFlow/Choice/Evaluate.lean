import StateFlow.Choice.Rule
import StateFlow.Choice.Wildcard
import StateFlow.Path.Resolve
import StateFlow.Timestamp

/-!
# Evaluating choice rules

`Rule.holds` evaluates a rule against a payload and a context object.  `And` and `Or` stop at the
first rule that decides them, so a fault in a later rule is not met.  A value of another kind than
the comparison orders never matches; a missing value is a fault except for `IsPresent`.
-/

namespace StateFlow

namespace ValueKind

/-- The order of two values of a kind; `none` when either is of another kind. -/
def compare? : ValueKind → Json → Json → Option Ordering
  | string, .string a, .string b => some (Ord.compare a b)
  | numeric, .number a, .number b => some (a.compare b)
  | boolean, .boolean a, .boolean b => some (Ord.compare a b)
  | timestamp, .string a, .string b => do
    return Timestamp.compare (← Timestamp.read? a) (← Timestamp.read? b)
  | _, _, _ => none

end ValueKind

namespace TypeTest

/-- The outcome of a type test on a value, or on none when nothing is there. -/
def holds : TypeTest → Option Json → Bool
  | isPresent, value => value.isSome
  | isNull, some .null => true
  | isNumeric, some (.number _) => true
  | isString, some (.string _) => true
  | isBoolean, some (.boolean _) => true
  | isTimestamp, some (.string s) => (Timestamp.read? s).isSome
  | _, _ => false

end TypeTest

namespace Test

/-- The value under test; `none` where the test is for presence and the value is missing. -/
def subject (payload context : Json) (expression : String) :
    Test → Except Fault (Option Json)
  | type .isPresent _ =>
    match resolve payload context expression with
    | .ok value => .ok (some value)
    | .error (.pathNotFound _) => .ok none
    | .error fault => .error fault
  | _ => return some (← resolve payload context expression)

/-- The outcome of a test on the value under test. -/
def outcome (payload context : Json) (subject : Option Json) : Test → Except Fault Bool
  | compare kind relation operand => do
    let right ← match operand with
      | .literal value => .ok value
      | .path expression => resolve payload context expression
    return ((subject.bind (kind.compare? · right)).map relation.holds).getD false
  | like pattern =>
    match subject with
    | some (.string text) => .ok (Wildcard.fits pattern text)
    | _ => .ok false
  | type test expected => .ok (test.holds subject == expected)

/-- Evaluates a single test of the value that an expression selects. -/
def holds (payload context : Json) (subject? : Option String) (t : Test) : Except Fault Bool :=
  match subject? with
  | none => .error (.unsupportedPath t.operator .noVariable)
  | some expression => do t.outcome payload context (← t.subject payload context expression)

end Test

namespace Rule

mutual

/-- Evaluates a rule. -/
def holds (payload context : Json) : Rule → Except Fault Bool
  | and _ rules => allHold payload context rules
  | or _ rules => anyHolds payload context rules
  | not _ rule => do return !(← holds payload context rule)
  | test frame t => t.holds payload context frame.subject?

/-- True when all rules hold, up to the first that does not. -/
def allHold (payload context : Json) : List Rule → Except Fault Bool
  | [] => .ok true
  | r :: rs => do if ← holds payload context r then allHold payload context rs else return false

/-- True when some rule holds, up to the first that does. -/
def anyHolds (payload context : Json) : List Rule → Except Fault Bool
  | [] => .ok false
  | r :: rs => do if ← holds payload context r then return true else anyHolds payload context rs

end

/-- The first rule that holds. -/
def firstHolding (payload context : Json) : List Rule → Except Fault (Option Rule)
  | [] => .ok none
  | r :: rs => do
    if ← holds payload context r then return some r else firstHolding payload context rs

end Rule

end StateFlow
