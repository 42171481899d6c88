import StateFlow.Execution.Context
import StateFlow.Execution.Delay
import StateFlow.Execution.Event
import StateFlow.Function.Behaviour

/-!
# What an execution runs in

The services are fixed: which kinds of states can be run, which function is bound to which state,
what runs it, and what delays are slept with.  The world is what all executions share and change:
the clock, the tokens, and the records of calls and sleeps.  A situation is the world together with
what belongs to one execution.
-/

namespace StateFlow

/-- What executions are run with. -/
structure Services where
  /-- The kinds of states that can be run. -/
  kinds : List StateKind
  bindings : Bindings
  invoker : Invoker
  sleeper : Sleeper
  /-- The number of Map items in progress where the state sets no bound. -/
  concurrency : Nat

namespace Services

/-- The kinds of states that are run; Parallel is not among them. -/
def standardKinds : List StateKind := [.pass, .task, .wait, .choice, .fail, .succeed, .map]

/-- The number of Map items in progress where nobody sets a bound. -/
def standardConcurrency : Nat := 40

/-- Services with the standard kinds and concurrency, which sleep on the timer. -/
def standard (bindings : Bindings) (invoker : Invoker) : Services :=
  ⟨standardKinds, bindings, invoker, .timer, standardConcurrency⟩

/-- Services with another sleeper. -/
def withSleeper (s : Services) (sleeper : Sleeper) : Services := { s with sleeper }

/-- Services with another bound on Map items; zero counts as one. -/
def withConcurrency (s : Services) (bound : Nat) : Services := { s with concurrency := max bound 1 }

/-- The fault of a state of a kind that is not run. -/
def kindFault (kind : StateKind) : Fault := .unsupportedState kind.name

/-- Checks that a kind of states is run. -/
def checkKind (s : Services) (kind : StateKind) : Except Fault Unit :=
  if kind ∈ s.kinds then .ok () else .error (kindFault kind)

end Services

/-- A call that was made. -/
structure Call where
  binding : Binding
  input : Json
  context : Json
deriving Repr, Inhabited

/-- Reports for a token that are made at a time. -/
structure Job where
  due : Nat
  token : String
  settlements : List Settlement
deriving Repr, Inhabited

/-- What all executions share.  Times are milliseconds since the origin. -/
structure World where
  clock : Nat
  origin : Timestamp
  tokens : Tokens
  /-- The number of fresh names that were given out. -/
  named : Nat
  calls : List Call
  /-- The delays that were slept, in nanoseconds. -/
  sleeps : List Nat
  jobs : List Job
deriving Repr, Inhabited

namespace World

/-- The world before anything happens. -/
def initial (origin : Timestamp) : World := ⟨0, origin, Tokens.none, 0, [], [], []⟩

/-- The present instant. -/
def now (w : World) : Timestamp := w.origin.addMilliseconds w.clock

/-- A fresh name. -/
def takeName (w : World) : World × String := ({ w with named := w.named + 1 }, freshName w.named)

/-- A fresh token, registered. -/
def issueToken (w : World) : World × String :=
  let (w, token) := w.takeName
  ({ w with tokens := w.tokens.issue token }, token)

/-- The number of calls made of a function. -/
def callsOf (w : World) (binding : Binding) : Nat := w.calls.countP (·.binding = binding)

end World

/-- The world as one execution sees it. -/
structure Situation where
  world : World
  /-- The cancellation of the execution has been requested. -/
  cancelled : Bool
  events : List Event
deriving Repr, Inhabited

namespace Situation

/-- The situation after an event. -/
def emit (s : Situation) (event : Event) : Situation := { s with events := s.events ++ [event] }

/-- The situation after the tasks of some tokens have stopped waiting. -/
def release (s : Situation) (tokens : List String) : Situation :=
  { s with world := { s.world with tokens := s.world.tokens.releaseAll tokens } }

/-- The situation after a call. -/
def recordCall (s : Situation) (call : Call) : Situation :=
  { s with world := { s.world with calls := s.world.calls ++ [call] } }

/-- The situation after a delay was handed to the clock. -/
def recordSleep (s : Situation) (nanoseconds : Nat) : Situation :=
  { s with world := { s.world with sleeps := s.world.sleeps ++ [nanoseconds] } }

/-- The situation after reports were left for later. -/
def addJob (s : Situation) (job : Job) : Situation :=
  { s with world := { s.world with jobs := s.world.jobs ++ [job] } }

end Situation

/-- What every state of an execution is run with. -/
structure Scope where
  services : Services
  identity : Identity

end StateFlow
