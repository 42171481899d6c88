import StateFlow.Fault
import StateFlow.Machine.Definition

/-!
# Events of an execution

What an observer of an execution sees: its start, each state as it is entered and left, and one
event that ends it, unless it is aborted.  Events of Map items carry the index of their item; where
Maps nest, it is the index in the innermost one.
-/

namespace StateFlow

/-- An event of an execution. -/
inductive Event where
  | executionStarted (executionId machine : String) (input : Json)
  | stateEntered (state : String) (kind : StateKind) (input : Json) (item? : Option Nat)
  | stateExited (state : String) (output : Json) (item? : Option Nat)
  | executionSucceeded (output : Json)
  | executionFailed (error : String) (cause? : Option String)
  | executionCancelled
deriving Repr, Inhabited

namespace Event

/-- The event that ends an execution with a result. -/
def ending : Except Fault Json → Event
  | .ok output => executionSucceeded output
  | .error .cancelled => executionCancelled
  | .error fault => executionFailed fault.errorName fault.cause?

/-- The status that an event gives to its execution; none while it goes on. -/
def status? : Event → Option String
  | executionSucceeded _ => some "Succeeded"
  | executionFailed _ _ => some "Failed"
  | executionCancelled => some "Cancelled"
  | _ => none

/-- True of the events that end an execution. -/
def isEnding (e : Event) : Bool := e.status?.isSome

open Json

/-- The index of an item as a document. -/
def itemJson : Option Nat → Json
  | none => null
  | some index => ofNat index

/-- The name of an event and what it tells. -/
def content : Event → String × List (String × Json)
  | executionStarted id machine input =>
    ("ExecutionStarted",
      [("execution_id", string id), ("state_machine", string machine), ("input", input)])
  | stateEntered state kind input item? =>
    ("StateEntered",
      [("state_name", string state), ("state_type", string kind.name), ("input", input),
        ("map_item", itemJson item?)])
  | stateExited state output item? =>
    ("StateExited",
      [("state_name", string state), ("output", output), ("map_item", itemJson item?)])
  | executionSucceeded output => ("ExecutionSucceeded", [("output", output)])
  | executionFailed error cause? =>
    ("ExecutionFailed", [("error", string error), ("cause", ofOption cause?)])
  | executionCancelled => ("ExecutionCancelled", [])

/-- The document of an event, with the status that it gives to its execution. -/
def toJson (e : Event) : Json :=
  let (name, fields) := e.content
  object ((name, object fields) :: (e.status?.map fun s => ("status", string s)).toList)

end Event

end StateFlow
