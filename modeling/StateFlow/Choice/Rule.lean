import StateFlow.Json.Basic

/-!
# Choice rules

A rule tests a payload: it combines rules with `And`, `Or` and `Not`, or it is a single test of the
value under `Variable`.  The operator of a test is one word made of a value kind, a relation and,
when the operand is another path, the ending `Path`.
-/

namespace StateFlow

/-- The kind of value that a comparison orders. -/
inductive ValueKind where
  | string
  | numeric
  | boolean
  | timestamp
deriving DecidableEq, Repr, Inhabited

/-- The relation that a comparison asks for. -/
inductive Relation where
  | equals
  | lessThan
  | greaterThan
  | lessThanEquals
  | greaterThanEquals
deriving DecidableEq, Repr, Inhabited

/-- The right-hand side of a comparison. -/
inductive Operand where
  | literal (value : Json)
  | path (expression : String)
deriving Repr, Inhabited

/-- A test of a value's type or presence. -/
inductive TypeTest where
  | isNull
  | isPresent
  | isNumeric
  | isString
  | isBoolean
  | isTimestamp
deriving DecidableEq, Repr, Inhabited

/-- A single test. -/
inductive Test where
  | compare (kind : ValueKind) (relation : Relation) (operand : Operand)
  | like (pattern : String)
  | type (test : TypeTest) (expected : Bool)
deriving Repr, Inhabited

/-- What a rule carries beside its operator. -/
structure RuleFrame where
  subject? : Option String
  next? : Option String
deriving DecidableEq, Repr, Inhabited

/-- A rule. -/
inductive Rule where
  | and (frame : RuleFrame) (rules : List Rule)
  | or (frame : RuleFrame) (rules : List Rule)
  | not (frame : RuleFrame) (rule : Rule)
  | test (frame : RuleFrame) (test : Test)
deriving Repr, Inhabited

namespace ValueKind

/-- The word of a kind in an operator. -/
def word : ValueKind → String
  | string => "String"
  | numeric => "Numeric"
  | boolean => "Boolean"
  | timestamp => "Timestamp"

/-- All kinds. -/
def all : List ValueKind := [string, numeric, boolean, timestamp]

end ValueKind

namespace Relation

/-- The word of a relation in an operator. -/
def word : Relation → String
  | equals => "Equals"
  | lessThan => "LessThan"
  | greaterThan => "GreaterThan"
  | lessThanEquals => "LessThanEquals"
  | greaterThanEquals => "GreaterThanEquals"

/-- All relations. -/
def all : List Relation := [equals, lessThan, greaterThan, lessThanEquals, greaterThanEquals]

/-- True when an ordering satisfies the relation. -/
def holds : Relation → Ordering → Bool
  | equals, o => o == .eq
  | lessThan, o => o == .lt
  | greaterThan, o => o == .gt
  | lessThanEquals, o => o != .gt
  | greaterThanEquals, o => o != .lt

end Relation

namespace TypeTest

/-- The operator of a type test. -/
def word : TypeTest → String
  | isNull => "IsNull"
  | isPresent => "IsPresent"
  | isNumeric => "IsNumeric"
  | isString => "IsString"
  | isBoolean => "IsBoolean"
  | isTimestamp => "IsTimestamp"

/-- All type tests. -/
def all : List TypeTest := [isNull, isPresent, isNumeric, isString, isBoolean, isTimestamp]

end TypeTest

namespace Test

/-- The operator of a test. -/
def operator : Test → String
  | compare kind relation (.literal _) => kind.word ++ relation.word
  | compare kind relation (.path _) => kind.word ++ relation.word ++ "Path"
  | like _ => "StringMatches"
  | type test _ => test.word

end Test

namespace Rule

/-- What a rule carries beside its operator. -/
def frame : Rule → RuleFrame
  | and f _ | or f _ | not f _ | test f _ => f

/-- The state that a rule leads to. -/
def next? (r : Rule) : Option String := r.frame.next?

/-- The operator of a rule. -/
def operator : Rule → String
  | and _ _ => "And"
  | or _ _ => "Or"
  | not _ _ => "Not"
  | test _ t => t.operator

/-- What a rule has if the rules that it combines have it is had by every rule. -/
@[elab_as_elim]
theorem induction {motive : Rule → Prop}
    (and : ∀ (frame : RuleFrame) (rules : List Rule), (∀ r ∈ rules, motive r) →
      motive (and frame rules))
    (or : ∀ (frame : RuleFrame) (rules : List Rule), (∀ r ∈ rules, motive r) →
      motive (or frame rules))
    (not : ∀ (frame : RuleFrame) (rule : Rule), motive rule → motive (not frame rule))
    (test : ∀ (frame : RuleFrame) (t : Test), motive (test frame t)) (rule : Rule) : motive rule :=
  @Rule.rec motive (fun rules => ∀ r ∈ rules, motive r) and or not test nofun
    (fun _ _ hr hrs => List.forall_mem_cons.mpr ⟨hr, hrs⟩) rule

end Rule

end StateFlow
