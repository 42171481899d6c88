import StateFlow.Execution.Schedule
import StateFlow.Machine.Validation

/-!
# The simulator

Machines are registered under names, valid ones only, and executions of them are started in one
engine.  An execution keeps the definition it was started with when its name is registered again.
-/

namespace StateFlow

/-- Registered machines and the engine that their executions run in. -/
structure Simulator where
  machines : List (String × Machine)
  engine : Engine

namespace Simulator

/-- A simulator without machines. -/
def initial (services : Services) (origin : Timestamp) : Simulator :=
  ⟨[], Engine.initial services origin⟩

/-- Registers a machine in place of an earlier one of the name. -/
def register (sim : Simulator) (name : String) (machine : Machine) : Except Fault Simulator :=
  match machine.violations with
  | [] => .ok { sim with machines := Entries.insert sim.machines name machine }
  | violations => .error (.invalidDefinition violations)

/-- Registers machines in order; the first that is refused counts. -/
def registerAll (sim : Simulator) : List (String × Machine) → Except Fault Simulator
  | [] => .ok sim
  | (name, machine) :: rest => do (← sim.register name machine).registerAll rest

/-- The names in the order of registration. -/
def names (sim : Simulator) : List String := Entries.keys sim.machines

/-- The machine of a name. -/
def machine? (sim : Simulator) (name : String) : Option Machine := Entries.get? sim.machines name

/-- Starts an execution; the result names its place in the engine. -/
def start (sim : Simulator) (name : String) (input : Json) : Except Fault (Simulator × Nat) :=
  match sim.machine? name with
  | none => .error (.unknownMachine name)
  | some machine =>
    let (engine, place) := sim.engine.launch name machine input
    .ok ({ sim with engine }, place)

/-- Waits for an execution, up to the end of patience. -/
def await (sim : Simulator) (execution : Nat) : Simulator :=
  { sim with
    engine := sim.engine.await execution (sim.engine.world.clock + Engine.patience) }

/-- Requests the cancellation of an execution. -/
def cancel (sim : Simulator) (execution : Nat) : Simulator :=
  { sim with engine := (sim.engine.move (.cancel execution)).getD sim.engine }

end Simulator

end StateFlow
