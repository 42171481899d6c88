import StateFlow.Machine.Definition
import StateFlow.Machine.Violation
import StateFlow.Text.Blank

/-!
# Validation

`Machine.violations` lists every violation of a definition in authoring order, the levels inside Map
states where those states stand.  A definition without violations has a start at every level, leads
nowhere outside a level, and has no two states of one name at any levels.
-/

namespace StateFlow

/-- The violations of a level, together with the state names declared so far. -/
abbrev Findings := List Violation × List String

namespace Rule

mutual

/-- The operators of the single tests in a rule that name nothing to compare. -/
def withoutVariable : Rule → List String
  | and _ rules | or _ rules => allWithoutVariable rules
  | not _ rule => withoutVariable rule
  | test frame t => if frame.subject?.isNone then [t.operator] else []

/-- The same for several rules. -/
def allWithoutVariable : List Rule → List String
  | [] => []
  | r :: rs => withoutVariable r ++ allWithoutVariable rs

end

end Rule

namespace State

/-- The defect of a transition to a state that the level does not have. -/
def targetDefects (names : List String) (target : String) : List StateDefect :=
  if target ∈ names then [] else [.unknownTarget target]

/-- The defects of a `Next` and `End` pair. -/
def transitionDefects (names : List String) (t : Transition) : List StateDefect :=
  match t.next?, t.ends with
  | some _, true => [.nextAndEnd]
  | none, false => [.noTransition]
  | some next, false => targetDefects names next
  | none, true => []

/-- The defects of one rule of a Choice state. -/
def ruleDefects (names : List String) (index : Nat) (rule : Rule) : List StateDefect :=
  (match rule.next? with
    | some next => targetDefects names next
    | none => [.ruleWithoutNext index]) ++
  rule.withoutVariable.map (.ruleWithoutVariable index)

/-- The defects of the rules of a Choice state, counted from `index`. -/
def rulesDefects (names : List String) : (index : Nat) → List Rule → List StateDefect
  | _, [] => []
  | index, r :: rs => ruleDefects names index r ++ rulesDefects names (index + 1) rs

/-- The defects of a state's own fields. -/
def fieldDefects (names : List String) : State → List StateDefect
  | choice s =>
    (if s.rules.isEmpty then [.noRule] else []) ++ rulesDefects names 0 s.rules ++
      (match s.default? with | some target => targetDefects names target | none => [])
  | wait s => if s.delays.length = 1 then [] else [.delayCount s.delays.length]
  | map _ none none => [.noProcessor]
  | task s => if (Text.trim s.resource.toList).isEmpty then [.noResource] else []
  | _ => []

/-- The defects of a state among the states of its level, its Map machine aside. -/
def defects (names declared : List String) (name : String) (state : State) : List StateDefect :=
  (if name ∈ declared then [.duplicate] else []) ++
    (match state.transition? with | some t => transitionDefects names t | none => []) ++
    fieldDefects names state

end State

namespace Machine

/-- The violations of a level itself. -/
def levelViolations (trail : List String) (m : Machine) : List Violation :=
  (if m.states.isEmpty then [.noStates trail] else []) ++
    (if m.startAt ∈ Entries.keys m.states then [] else [.unknownStart trail m.startAt])

mutual

/-- The findings at a level and below, given the names declared before it. -/
def inspect (trail declared : List String) : Machine → Findings
  | ⟨comment?, startAt, states, timeout?⟩ =>
    let (found, declared) := inspectStates trail (Entries.keys states) declared states
    (levelViolations trail ⟨comment?, startAt, states, timeout?⟩ ++ found, declared)

/-- The findings in the states of a level, in order. -/
def inspectStates (trail names declared : List String) : List (String × State) → Findings
  | [] => ([], declared)
  | (name, state) :: rest =>
    let own := (State.defects names declared name state).map (.defect trail name)
    let (inner, declared) := inspectInside (trail ++ [name]) (name :: declared) state
    let (found, declared) := inspectStates trail names declared rest
    (own ++ inner ++ found, declared)

/-- The findings in the machine that a Map state runs. -/
def inspectInside (trail declared : List String) : State → Findings
  | .map _ (some m) _ => inspect trail declared m
  | .map _ none (some m) => inspect trail declared m
  | _ => ([], declared)

end

/-- Every violation of a definition. -/
def violations (m : Machine) : List Violation := (inspect [] [] m).1

end Machine

end StateFlow
