import StateFlow.Execution.Engine

/-!
# Running an engine

The scheduler chooses among the moves that are possible: executions in the order in which they were
started, in each the leaves in order of rank, then the deadline of the execution, then reports that
are due, and only when nothing else is possible it lets time go on, straight to the next timer.
Every move it makes is one of `Engine.move`.
-/

namespace StateFlow

/-- The first candidate of least rank. -/
def Run.firstCandidate? : List Run.Candidate → Option Run.Candidate
  | [] => none
  | c :: cs =>
    match firstCandidate? cs with
    | some d => some (if d.rank < c.rank then d else c)
    | none => some c

namespace Execution

/-- The next move of an execution at a place. -/
def nextMove? (e : Execution) (w : World) (place : Nat) : Option Move :=
  match e.phase with
  | .created => some (.start place)
  | .finished _ => none
  | .running _ deadline? =>
    match Run.firstCandidate? (e.candidates w) with
    | some c =>
      if (e.panicAt? c.address).isSome then some (.abort place c.address)
      else some (.leaf place c.move c.address)
    | none =>
      match deadline? with
      | some deadline => if deadline ≤ w.clock then some (.expire place) else none
      | none => none

end Execution

namespace Engine

/-- The first next move of some executions, the first of which is at a place. -/
def nextExecutionMove? (w : World) : (place : Nat) → List Execution → Option Move
  | _, [] => none
  | place, e :: rest => (e.nextMove? w place) <|> nextExecutionMove? w (place + 1) rest

/-- The place of the report that is due first. -/
def dueJob? (w : World) : Option Nat := w.jobs.findIdx? (·.due ≤ w.clock)

/-- The next move that needs no time. -/
def nextMove? (engine : Engine) : Option Move :=
  nextExecutionMove? engine.world 0 engine.executions <|> (dueJob? engine.world).map .report

/-- The time of the next timer. -/
def nextTimer? (engine : Engine) : Option Nat :=
  (engine.executions.flatMap (·.timers) ++ engine.world.jobs.map (·.due)).min?

/-- The next move before a time. -/
def nextMoveBefore? (engine : Engine) (time : Nat) : Option Move :=
  if time ≤ engine.world.clock then none
  else match engine.nextMove? with
  | some m => some m
  | none => engine.nextTimer?.bind fun t => if t < time then some (.wait t) else none

/-- Lets the scheduler run until a condition holds, nothing happens before a time, or the number of
moves is used up. -/
def runUntil (stop : Engine → Bool) (time : Nat) : (moves : Nat) → Engine → Engine
  | 0, engine => engine
  | moves + 1, engine =>
    if stop engine then engine
    else match (engine.nextMoveBefore? time).bind engine.move with
    | some engine => runUntil stop time moves engine
    | none => engine

/-- The number of moves after which the scheduler gives up. -/
def greatestMoves : Nat := 1000000000000000

/-- The longest time for which an execution is waited for, in milliseconds: 300 days. -/
def patience : Nat := 300 * 86400 * 1000

/-- Waits for an execution, up to a time. -/
def await (engine : Engine) (execution time : Nat) : Engine :=
  engine.runUntil (fun engine => (engine.result? execution).isSome) time greatestMoves

/-- Lets an amount of time pass. -/
def advance (engine : Engine) (milliseconds : Nat) : Engine :=
  let time := engine.world.clock + milliseconds
  let engine := engine.runUntil (fun _ => false) time greatestMoves
  (engine.move (.wait time)).getD engine

end Engine

end StateFlow
