import StateFlow.Execution.Departure
import StateFlow.Function.Behaviour

/-!
# Runs

A run walks through a machine.  Between two steps it is about to enter a state, at work in one,
about to leave one, or has ended.  The work of a Map state holds the runs of its items, so a run is
a tree; its leaves are where the next steps can be taken.
-/

namespace StateFlow

/-- How far the function of a task has come. -/
inductive Progress where
  /-- It is about to take its next step. -/
  | acting (behaviour : Behaviour)
  /-- It sleeps until a time. -/
  | paused (wakeAt : Nat) (rest : Behaviour)
  /-- It has returned, and its token is awaited. -/
  | awaiting
deriving Inhabited

/-- The work of a Task state. -/
structure TaskWork where
  task : TaskState
  progress : Progress
  /-- The token of a callback task. -/
  token? : Option String
  /-- When the task times out. -/
  deadline? : Option Nat
deriving Inhabited

/-- The work of a Wait state. -/
structure WaitWork where
  wait : WaitState
  effective : Json
  wakeAt : Nat
deriving Inhabited

/-- What does not change while a Map state works. -/
structure MapFrame where
  settings : MapSettings
  /-- The machine that runs for each item. -/
  machine : Machine
  effective : Json
  /-- The context object of the Map state. -/
  context : Json
deriving Inhabited

mutual

/-- A run of a machine. -/
inductive Run where
  | entering (state : String) (payload : Json)
  | working (state : String) (input : Json) (work : Work)
  | leaving (state : String) (departure : Departure)
  | ended (result : Except Fault Json)

/-- The work of a state that does not finish at once. -/
inductive Work where
  | task (work : TaskWork)
  | wait (work : WaitWork)
  /-- A Map state: the outputs handed over in order, the runs of the items after those in order, and
  the items that have not been started. -/
  | map (frame : MapFrame) (delivered : List Json) (active : List (Nat × Run))
      (waiting : List (Nat × Json))

end

instance : Inhabited Run := ⟨.entering "" .null⟩

namespace Run

/-- The run that starts a machine. -/
def start (m : Machine) (input : Json) : Run := entering m.startAt input

/-- The run of a state that has produced its departure or failed. -/
def ofOutcome (state : String) : Except Fault Departure → Run
  | .ok departure => leaving state departure
  | .error fault => ended (.error fault)

/-- The result of a run that has ended. -/
def result? : Run → Option (Except Fault Json)
  | ended result => some result
  | _ => none

mutual

/-- The tokens that a run waits on. -/
def tokens : Run → List String
  | working _ _ work => workTokens work
  | _ => []

/-- The tokens that the work of a state waits on. -/
def workTokens : Work → List String
  | .task work => work.token?.toList
  | .wait _ => []
  | .map _ _ active _ => activeTokens active

/-- The tokens that the runs of items wait on. -/
def activeTokens : List (Nat × Run) → List String
  | [] => []
  | (_, run) :: rest => run.tokens ++ activeTokens rest

end

end Run

end StateFlow
