import StateFlow.Machine.Violation
import StateFlow.Path.Basic
import StateFlow.Timestamp

/-!
# Faults

Every way in which reading a payload, running a state or running an execution can fail.  A fault is
a cause; its text is `Fault.message`, the name an execution reports is `Fault.errorName`, and what
it reports beside the name is `Fault.cause?`.  A failing Map item wraps the fault of the item, and
the name of the whole is the name of the innermost fault.
-/

namespace StateFlow

/-- What is wrong with the delay of a Wait state; documents stand in their one-line text. -/
inductive DelayFlaw where
  /-- None or several of the delay fields are given. -/
  | count (found : Nat)
  /-- The path does not lead to a number, or to a negative one. -/
  | notSeconds (expression found : String)
  /-- The number of seconds is beyond 64 bits. -/
  | tooLong (expression found : String)
  /-- The path does not lead to a string. -/
  | notText (expression typeName : String)
  /-- The text is not a timestamp. -/
  | notTimestamp (text : String) (flaw : Timestamp.Flaw)
deriving DecidableEq, Repr, Inhabited

/-- A fault of an execution. -/
inductive Fault where
  /-- A path names a field that is absent, or goes into something that is not an object. -/
  | pathNotFound (expression : String)
  /-- An expression is not a path, or not one that may stand where it does. -/
  | unsupportedPath (expression : String) (flaw : PathFlaw)
  | missingField (field : String)
  | unsupportedField (field : String)
  /-- No function is bound to a Task state. -/
  | unboundTask (machine state : String)
  | taskFailed (state message : String)
  | taskTimedOut (state : String) (seconds : Nat)
  | noMatchingChoice (state : String)
  | unsupportedState (type : String)
  /-- The machine of a Map state failed on one item. -/
  | itemFailed (state : String) (index : Nat) (source : Fault)
  | invalidItems (state typeName : String)
  | invalidDelay (state : String) (flaw : DelayFlaw)
  /-- A Fail state was reached. -/
  | stateFailed (state : String) (error cause : Option String)
  | stateNotFound (state : String)
  | invalidDefinition (violations : List Violation)
  | unknownMachine (name : String)
  | unknownToken (token : String)
  | executionTimedOut (seconds : Nat)
  | cancelled
  /-- An execution ended without a result of its own, because a function panicked. -/
  | executionAborted (report : String)
deriving DecidableEq, Repr, Inhabited

namespace DelayFlaw

/-- The reason as diagnostics give it. -/
def message : DelayFlaw → String
  | count found =>
    "exactly one of Seconds, SecondsPath, Timestamp, TimestampPath is required " ++
      s!"(found {found})"
  | notSeconds expression found =>
    s!"'{expression}' must resolve to a non-negative number, found {found}"
  | tooLong expression found =>
    s!"'{expression}' resolved to {found}: " ++
      "cannot convert float seconds to Duration: value is either too big or NaN"
  | notText expression typeName =>
    s!"'{expression}' must resolve to a timestamp string, found {typeName}"
  | notTimestamp text flaw => s!"'{text}' is not an RFC 3339 timestamp: {flaw.message}"

end DelayFlaw

namespace Fault

/-- The text of a fault. -/
def message : Fault → String
  | pathNotFound expression => s!"path '{expression}' did not match any value"
  | unsupportedPath expression flaw =>
    s!"unsupported path expression '{expression}': {flaw.message}"
  | missingField field => s!"The field '{field}' is required but was missing"
  | unsupportedField field => s!"The field \"{field}\" is not supported by Step Functions"
  | unboundTask machine state =>
    s!"no function is bound to state '{state}' of state machine '{machine}'"
  | taskFailed state message => s!"task state '{state}' failed: {message}"
  | taskTimedOut state seconds => s!"task state '{state}' timed out after {seconds}s"
  | noMatchingChoice state => s!"choice state '{state}' matched no rule and has no Default"
  | unsupportedState type => s!"State of Type \"{type}\" is not supported yet."
  | itemFailed state index source =>
    s!"map state '{state}' failed on item {index}: {source.message}"
  | invalidItems state typeName =>
    s!"map state '{state}' expected an array of items but found {typeName}"
  | invalidDelay state flaw => s!"wait state '{state}' has an invalid delay: {flaw.message}"
  | stateFailed _ error cause =>
    error.getD "States.Fail" ++ (match cause with | some c => s!": {c}" | none => "")
  | stateNotFound state => s!"state '{state}' does not exist"
  | invalidDefinition violations => Violation.summary violations
  | unknownMachine name => s!"state machine '{name}' is not registered"
  | unknownToken token => s!"task token '{token}' is unknown or already completed"
  | executionTimedOut seconds => s!"execution exceeded its {seconds}s timeout"
  | cancelled => "execution was cancelled"
  | executionAborted report => s!"execution aborted: {report}"

/-- The name under which an execution reports the fault. -/
def errorName : Fault → String
  | stateFailed _ error _ => error.getD "States.Fail"
  | taskFailed _ _ | unboundTask _ _ => "States.TaskFailed"
  | taskTimedOut _ _ | executionTimedOut _ => "States.Timeout"
  | noMatchingChoice _ => "States.NoChoiceMatched"
  | itemFailed _ _ source => source.errorName
  | cancelled => "States.Cancelled"
  | _ => "States.Runtime"

/-- What an execution reports beside the name: the declared cause of a Fail state, the text of any
other fault. -/
def cause? : Fault → Option String
  | stateFailed _ _ cause => cause
  | fault => some fault.message

@[simp] theorem errorName_itemFailed (state : String) (index : Nat) (source : Fault) :
    (itemFailed state index source).errorName = source.errorName := rfl

end Fault

end StateFlow
