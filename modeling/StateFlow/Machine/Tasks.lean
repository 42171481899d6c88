import StateFlow.Function.Binding
import StateFlow.Machine.Definition

/-!
# The tasks of a machine

The Task states of a machine are those of its own level and those of the machines that its Map
states run, in the order in which they are written.  Each names one function: by its resource, or,
when it waits for a token, by a parameter.
-/

namespace StateFlow

mutual

/-- The Task states of a machine with their names, those inside Map states in place. -/
def Machine.tasks : Machine → List (String × TaskState)
  | ⟨_, _, states, _⟩ => State.tasksOf states

/-- The Task states among some states and inside them. -/
def State.tasksOf : List (String × State) → List (String × TaskState)
  | [] => []
  | (name, state) :: rest => State.tasks name state ++ State.tasksOf rest

/-- The Task states that a state is or holds. -/
def State.tasks (name : String) : State → List (String × TaskState)
  | .task s => [(name, s)]
  | .map _ (some m) _ => m.tasks
  | .map _ none (some m) => m.tasks
  | _ => []

end

/-- Why a task that waits for a token names no function. -/
inductive NamingFlaw where
  | missing
  /-- The function is only known when the task runs. -/
  | dynamic
  | notText
deriving DecidableEq, Repr, Inhabited

namespace NamingFlaw

/-- The text of a flaw. -/
def message : NamingFlaw → String
  | missing => "callback task must declare Parameters.FunctionName"
  | dynamic => "Parameters.FunctionName.$ is resolved at run time and cannot be bound to a " ++
      "declared function; use a literal FunctionName"
  | notText => "Parameters.FunctionName must be a string"

end NamingFlaw

namespace TaskState

/-- The parameter that names the function of a task that waits for a token. -/
def functionField : String := "FunctionName"

/-- The parameter that names such a function by a path. -/
def dynamicFunctionField : String := "FunctionName.$"

/-- The value of a parameter. -/
def parameter? (s : TaskState) (name : String) : Option Json := s.parameters?.bind (·.field? name)

/-- The function that a task names. -/
def functionName (s : TaskState) : Except NamingFlaw String :=
  if s.isCallback then
    match s.parameter? functionField with
    | some (.string resource) => .ok (functionOfResource resource)
    | some _ => .error .notText
    | none => .error (if (s.parameter? dynamicFunctionField).isSome then .dynamic else .missing)
  else .ok (functionOfResource s.resource)

end TaskState

end StateFlow
