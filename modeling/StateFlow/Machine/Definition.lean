import StateFlow.Choice.Rule
import StateFlow.DataFlow.Projection

/-!
# State machine definitions

A machine is a table of named states in authoring order with one start.  A state is one of eight
kinds and carries the fields of its kind only.  The machine that a Map state runs for each item is
part of the state, so definitions nest.
-/

namespace StateFlow

/-- The kinds of states. -/
inductive StateKind where
  | pass
  | task
  | wait
  | choice
  | fail
  | succeed
  | map
  | parallel
deriving DecidableEq, Repr, Inhabited

namespace StateKind

/-- The name of a kind in a definition. -/
def name : StateKind → String
  | pass => "Pass"
  | task => "Task"
  | wait => "Wait"
  | choice => "Choice"
  | fail => "Fail"
  | succeed => "Succeed"
  | map => "Map"
  | parallel => "Parallel"

/-- All kinds. -/
def all : List StateKind := [pass, task, wait, choice, fail, succeed, map, parallel]

/-- The kind of a name. -/
def ofName? (name : String) : Option StateKind := all.find? (·.name = name)

end StateKind

/-- Where a state leads: to another state, or to the end. -/
structure Transition where
  next? : Option String
  ends : Bool
deriving DecidableEq, Repr, Inhabited

/-- Forwards its input. -/
structure PassState where
  comment? : Option String
  input : PathField
  /-- Kept with the definition; not applied. -/
  parameters? : Option Json
  result : PathField
  output : PathField
  transition : Transition
deriving Repr, Inhabited

/-- Calls the function behind a resource. -/
structure TaskState where
  comment? : Option String
  resource : String
  input : PathField
  parameters? : Option Json
  result : PathField
  output : PathField
  timeout? : Option Nat
  transition : Transition
deriving Repr, Inhabited

/-- Waits. -/
structure WaitState where
  comment? : Option String
  seconds? : Option Nat
  secondsPath? : Option String
  timestamp? : Option String
  timestampPath? : Option String
  input : PathField
  output : PathField
  transition : Transition
deriving Repr, Inhabited

/-- Leads to the state of the first rule that holds. -/
structure ChoiceState where
  comment? : Option String
  rules : List Rule
  default? : Option String
  input : PathField
  output : PathField
deriving Repr, Inhabited

/-- Ends the execution with an error. -/
structure FailState where
  comment? : Option String
  error? : Option String
  cause? : Option String
deriving DecidableEq, Repr, Inhabited

/-- Ends the execution. -/
structure SucceedState where
  comment? : Option String
  input : PathField
  output : PathField
deriving DecidableEq, Repr, Inhabited

/-- What a Map state says beside the machine that it runs. -/
structure MapSettings where
  comment? : Option String
  itemsPath? : Option String
  itemSelector? : Option Json
  parameters? : Option Json
  /-- The greatest number of items in progress; zero leaves it to the engine. -/
  maxConcurrency : Nat
  input : PathField
  result : PathField
  output : PathField
  transition : Transition
deriving Repr, Inhabited

/-- Accepted in a definition; nothing runs it. -/
structure ParallelState where
  comment? : Option String
  branches : List Json
  transition : Transition
deriving Repr, Inhabited

mutual

/-- A state of a machine. -/
inductive State where
  | pass (state : PassState)
  | task (state : TaskState)
  | wait (state : WaitState)
  | choice (state : ChoiceState)
  | fail (state : FailState)
  | succeed (state : SucceedState)
  | map (settings : MapSettings) (itemProcessor? iterator? : Option Machine)
  | parallel (state : ParallelState)

/-- A state machine. -/
structure Machine where
  comment? : Option String
  startAt : String
  states : List (String × State)
  timeout? : Option Nat

end

/-- A delay of a Wait state. -/
inductive Delay where
  | seconds (count : Nat)
  | secondsPath (expression : String)
  | timestamp (text : String)
  | timestampPath (expression : String)
deriving DecidableEq, Repr, Inhabited

namespace WaitState

/-- The delays that are given; a valid state has one. -/
def delays (s : WaitState) : List Delay :=
  (s.seconds?.map .seconds).toList ++ (s.secondsPath?.map .secondsPath).toList ++
    (s.timestamp?.map .timestamp).toList ++ (s.timestampPath?.map .timestampPath).toList

end WaitState

namespace TaskState

/-- The ending of a resource whose task waits for a token. -/
def callbackSuffix : String := ".waitForTaskToken"

/-- True when the task waits for its token to be completed from outside. -/
def isCallback (s : TaskState) : Bool :=
  callbackSuffix.toList.isSuffixOf s.resource.toList

end TaskState

namespace MapSettings

/-- The template that makes the input of each item. -/
def template? (s : MapSettings) : Option Json := s.itemSelector? <|> s.parameters?

end MapSettings

namespace State

instance : Inhabited State := ⟨.fail default⟩

/-- The kind of a state. -/
def kind : State → StateKind
  | pass _ => .pass
  | task _ => .task
  | wait _ => .wait
  | choice _ => .choice
  | fail _ => .fail
  | succeed _ => .succeed
  | map _ _ _ => .map
  | parallel _ => .parallel

/-- Where a state leads; Choice, Fail and Succeed decide that themselves. -/
def transition? : State → Option Transition
  | pass s => some s.transition
  | task s => some s.transition
  | wait s => some s.transition
  | map s _ _ => some s.transition
  | parallel s => some s.transition
  | choice _ | fail _ | succeed _ => none

end State

namespace Machine

instance : Inhabited Machine := ⟨⟨none, "", [], none⟩⟩

/-- The state of a name. -/
def state? (m : Machine) (name : String) : Option State := Entries.get? m.states name

end Machine

/-- The machine that a Map state runs for each item. -/
def processor? (itemProcessor? iterator? : Option Machine) : Option Machine :=
  itemProcessor? <|> iterator?

end StateFlow
