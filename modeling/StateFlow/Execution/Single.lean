import StateFlow.Execution.Schedule

/-!
# Running one state

A state can be run by itself, without a walk around it: it begins with an input, and its outcome is
its departure or a fault.  The kind under which it is run must be its own.
-/

namespace StateFlow

/-- Begins a state as a state of a given kind. -/
def State.beginAs (kind : StateKind) (state : State) (scope : Scope) (s : Situation)
    (name : String) (input context : Json) : Situation × Run :=
  match scope.services.checkKind kind with
  | .error fault => (s, .ended (.error fault))
  | .ok () =>
    if state.kind = kind then state.begin scope s name input context
    else (s, .ended (.error (Services.kindFault state.kind)))

namespace Execution

/-- The outcome of the state that a run is at, if it has one. -/
def departure? (e : Execution) : Option (Except Fault Departure) :=
  match e.phase with
  | .running (.leaving _ departure) _ => some (.ok departure)
  | .finished (.error fault) => some (.error fault)
  | _ => none

end Execution

/-- One state to be run by itself. -/
structure SingleState where
  identity : Identity
  kind : StateKind
  name : String
  state : State
  input : Json
  /-- The item of a Map state that it is run for. -/
  item? : Option (Nat × Json)
  cancelled : Bool

namespace SingleState

/-- The engine in which the state has begun. -/
def begun (single : SingleState) (services : Services) (origin : Timestamp) : Engine :=
  let machine : Machine := ⟨none, single.name, [(single.name, single.state)], none⟩
  let e := { Execution.create single.identity machine with cancelled := single.cancelled }
  let engine := Engine.initial services origin
  let context := Context.ofState single.identity single.name engine.world.now
  let context := match single.item? with
    | some (index, item) => Context.withItem context index item
    | none => context
  let (s, run) := single.state.beginAs single.kind ⟨services, single.identity⟩
    (e.situation engine.world) single.name single.input context
  { engine with world := s.world, executions := [(e.inSituation s).withRun none run] }

/-- The outcome of the state in an engine. -/
def outcome? (engine : Engine) : Option (Except Fault Departure) :=
  engine.executions[0]?.bind (·.departure?)

/-- The engine in which the state has departed or failed, unless it takes too long. -/
def completed (single : SingleState) (services : Services) (origin : Timestamp) : Engine :=
  (single.begun services origin).runUntil (fun engine => (outcome? engine).isSome) Engine.patience
    Engine.greatestMoves

end SingleState

end StateFlow
