import StateFlow.Choice.Evaluate
import StateFlow.DataFlow.ResultPath
import StateFlow.Machine.Definition

/-!
# Departures

A state that has done its work departs: it names the state that comes next, or the end, and hands on
a payload.  For each kind of state this module says which departure its work leads to.
-/

namespace StateFlow

/-- Where a state leads and what it hands on. -/
structure Departure where
  next? : Option String
  ends : Bool
  payload : Json
deriving Repr, Inhabited

namespace Departure

/-- Follows a `Next` and `End` pair; without `Next` the run ends. -/
def ofTransition (t : Transition) (payload : Json) : Departure :=
  ⟨t.next?, t.ends || t.next?.isNone, payload⟩

/-- The state that comes next, unless the run ends. -/
def successor? (d : Departure) : Option String := if d.ends then none else d.next?

end Departure

namespace PassState

/-- A Pass state hands on what it sees of its input. -/
def outcome (s : PassState) (input : Json) : Except Fault Departure := do
  let effective ← s.input.project input
  let merged ← s.result.merge input effective
  return .ofTransition s.transition (← s.output.project merged)

end PassState

namespace SucceedState

/-- A Succeed state ends the run with what it sees of its input. -/
def outcome (s : SucceedState) (input : Json) : Except Fault Departure := do
  let effective ← s.input.project input
  return ⟨none, true, ← s.output.project effective⟩

end SucceedState

namespace FailState

/-- A Fail state ends the run with its error. -/
def outcome (s : FailState) (state : String) : Except Fault Departure :=
  .error (.stateFailed state s.error? s.cause?)

end FailState

namespace ChoiceState

/-- A Choice state leads to the state of the first rule that holds, or to its default; a rule that
holds but leads nowhere counts as none. -/
def outcome (s : ChoiceState) (state : String) (input context : Json) :
    Except Fault Departure := do
  let effective ← s.input.project input
  let matched ← Rule.firstHolding effective context s.rules
  match (matched.bind Rule.next?) <|> s.default? with
  | none => .error (.noMatchingChoice state)
  | some next => return ⟨some next, false, ← s.output.project effective⟩

end ChoiceState

namespace TaskState

/-- A Task state merges the result of its function into its input; null counts as empty. -/
def outcome (s : TaskState) (input result : Json) : Except Fault Departure := do
  let merged ← s.result.merge input (if result.isNull then Json.empty else result)
  return .ofTransition s.transition (← s.output.project merged)

end TaskState

namespace WaitState

/-- A Wait state hands on what it sees of its input. -/
def outcome (s : WaitState) (effective : Json) : Except Fault Departure := do
  return .ofTransition s.transition (← s.output.project effective)

end WaitState

namespace MapSettings

/-- A Map state merges the array of its items' outputs into its input. -/
def outcome (s : MapSettings) (input : Json) (outputs : List Json) : Except Fault Departure := do
  let merged ← s.result.merge input (.array outputs)
  return .ofTransition s.transition (← s.output.project merged)

end MapSettings

end StateFlow
