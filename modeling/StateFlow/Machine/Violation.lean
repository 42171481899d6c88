/-!
# Violations of a definition

What is wrong with a state machine, and where.  A violation names the Map states that lead to its
level, outermost first; the text shows them as a trail before the state.
-/

namespace StateFlow

/-- A defect of one state. -/
inductive StateDefect where
  /-- Another state of the machine has the same name. -/
  | duplicate
  /-- Both `Next` and `End` are given. -/
  | nextAndEnd
  /-- Neither `Next` nor `End` is given. -/
  | noTransition
  /-- A transition leads to a state that the level does not have. -/
  | unknownTarget (target : String)
  /-- A Choice state has no rule. -/
  | noRule
  /-- A rule of a Choice state leads nowhere. -/
  | ruleWithoutNext (index : Nat)
  /-- A comparison inside a rule names nothing to compare. -/
  | ruleWithoutVariable (index : Nat) (operator : String)
  /-- A Wait state has none or several of its delay fields. -/
  | delayCount (found : Nat)
  /-- A Map state has no machine to run for its items. -/
  | noProcessor
  /-- A Task state names no resource. -/
  | noResource
deriving DecidableEq, Repr, Inhabited

/-- A violation at one level of a definition. -/
inductive Violation where
  /-- The level has no states. -/
  | noStates (trail : List String)
  /-- The level starts at a state that it does not have. -/
  | unknownStart (trail : List String) (name : String)
  /-- A state of the level is defective. -/
  | defect (trail : List String) (state : String) (defect : StateDefect)
  /-- A Map state was run although it has no machine for its items. -/
  | unrunnable (state : String)
deriving DecidableEq, Repr, Inhabited

namespace StateDefect

/-- What is said of the state. -/
def message : StateDefect → String
  | duplicate => "reuses a name already declared in this state machine"
  | nextAndEnd => "declares both Next and End"
  | noTransition => "declares neither Next nor End"
  | unknownTarget target => s!"transitions to unknown state '{target}'"
  | noRule => "must declare at least one choice rule"
  | ruleWithoutNext index => s!"choice rule {index} is missing Next"
  | ruleWithoutVariable index operator =>
    s!"choice rule {index} uses {operator} without a Variable"
  | delayCount found =>
    "must declare exactly one of Seconds, SecondsPath, Timestamp, TimestampPath " ++
      s!"(found {found})"
  | noProcessor => "must declare ItemProcessor or Iterator"
  | noResource => "must declare a Resource"

end StateDefect

namespace Violation

/-- The trail of Map states before a message. -/
def trailText (trail : List String) : String := String.join (trail.map (· ++ " > "))

/-- The text of a violation. -/
def message : Violation → String
  | noStates trail => trailText trail ++ "States must declare at least one state"
  | unknownStart trail name => trailText trail ++ s!"StartAt '{name}' does not name a state"
  | defect trail state d => trailText trail ++ s!"state '{state}' {d.message}"
  | unrunnable state => s!"state '{state}' {StateDefect.noProcessor.message}"

/-- Violations of one definition in one line. -/
def summary (violations : List Violation) : String :=
  "invalid state machine definition: " ++ "; ".intercalate (violations.map message)

end Violation

end StateFlow
