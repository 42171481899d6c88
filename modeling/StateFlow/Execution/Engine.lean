import StateFlow.Execution.Step

/-!
# Engines of executions

An execution is a run of a machine from its start event to the event that ends it, with the deadline
of its definition; one that a panic aborts ends without an event.  An engine holds executions that
share services and a world, and `Engine.move` is its transition: an execution starts, a leaf of one
moves or panics, a deadline passes, a report that was left for later is made, time goes on, or
somebody outside cancels an execution or reports for a token.

A move that is not possible changes nothing and is refused.
-/

namespace StateFlow

/-- How far an execution has come. -/
inductive Phase where
  /-- It has been started, but has not yet taken a step. -/
  | created
  | running (run : Run) (deadline? : Option Nat)
  | finished (result : Except Fault Json)
deriving Inhabited

/-- An execution of a machine. -/
structure Execution where
  identity : Identity
  machine : Machine
  cancelled : Bool
  events : List Event
  phase : Phase
deriving Inhabited

namespace Execution

/-- An execution before its first step. -/
def create (identity : Identity) (machine : Machine) : Execution :=
  ⟨identity, machine, false, [], .created⟩

/-- The result of an execution that has finished. -/
def result? (e : Execution) : Option (Except Fault Json) :=
  match e.phase with
  | .finished result => some result
  | _ => none

/-- The world as the execution sees it. -/
def situation (e : Execution) (w : World) : Situation := ⟨w, e.cancelled, e.events⟩

/-- The execution after its situation has changed. -/
def inSituation (e : Execution) (s : Situation) : Execution :=
  { e with cancelled := s.cancelled, events := s.events }

/-- The execution with its result, and the event that tells it. -/
def finish (e : Execution) (result : Except Fault Json) : Execution :=
  { e with events := e.events ++ [.ending result], phase := .finished result }

/-- The execution with its run moved on. -/
def withRun (e : Execution) (deadline? : Option Nat) : Run → Execution
  | .ended result => e.finish result
  | run => { e with phase := .running run deadline? }

/-- The first step: the start event, and the deadline of the definition. -/
def start? (e : Execution) (w : World) : Option Execution :=
  match e.phase with
  | .created =>
    some { e with
      events :=
        e.events ++
          [.executionStarted e.identity.executionId e.identity.machineName e.identity.input]
      phase :=
        .running (.start e.machine e.identity.input) (e.machine.timeout?.map w.deadlineAfter) }
  | _ => none

/-- Something done at a leaf. -/
def moveAt? (services : Services) (w : World) (move : Run.LeafMove) (address : List Nat)
    (e : Execution) : Option (World × Execution) :=
  match e.phase with
  | .running run deadline? => do
    let (s, run) ← Run.moveAt ⟨services, e.identity⟩ move e.machine none (e.situation w) address run
    return (s.world, (e.inSituation s).withRun deadline? run)
  | _ => none

/-- What is reported of the panic of a leaf. -/
def panicAt? (address : List Nat) (e : Execution) : Option String :=
  match e.phase with
  | .running run _ => run.panicAt? address
  | _ => none

/-- A panic of a leaf aborts the whole execution, wherever the leaf stands.  What it waits on is
released and it has a result, but no event tells of it. -/
def abort? (w : World) (address : List Nat) (e : Execution) : Option (World × Execution) :=
  match e.phase with
  | .running run _ => (run.panicAt? address).map fun report =>
    ({ w with tokens := w.tokens.releaseAll run.tokens },
      { e with phase := .finished (.error (.executionAborted report)) })
  | _ => none

end Execution

/-! ## What can move -/

namespace Run

/-- Something that can be done at a leaf.  Leaves of higher rank wait for those of lower rank. -/
structure Candidate where
  rank : Nat
  move : LeafMove
  address : List Nat
deriving Repr, Inhabited

/-- True when a leaf can take a step or panics. -/
def isReady (s : Situation) : Run → Bool
  | entering _ _ | leaving _ _ => true
  | working name _ (.task work) => (work.advance name s).isSome || work.panic?.isSome
  | working _ _ (.wait work) => work.wakeAt ≤ s.world.clock || s.cancelled
  | working _ _ (.map ..) | ended _ => false

/-- The rank of a leaf: tasks that await their tokens move in the order in which those were closed,
and after all others. -/
def rank (s : Situation) : Run → Nat
  | working _ _ (.task ⟨_, .awaiting, some token, _⟩) => s.world.tokens.closed.idxOf token + 1
  | _ => 0

/-- What can be done at a leaf. -/
def leafCandidates (s : Situation) (address : List Nat) (run : Run) : List Candidate :=
  if run.isReady s then [⟨run.rank s, .step, address⟩]
  else match run with
  | working _ _ (.task work) =>
    if work.isDue s.world.clock then [⟨0, .expire, address⟩] else []
  | _ => []

mutual

/-- What can be done at the leaves of a run, from the first item to the last; `trail` leads to the
run, innermost index first. -/
def candidates (s : Situation) (trail : List Nat) : Run → List Candidate
  | working _ _ (.map _ _ active _) => activeCandidates s trail active
  | run => leafCandidates s trail.reverse run

/-- What can be done at the leaves of the runs of items. -/
def activeCandidates (s : Situation) (trail : List Nat) : List (Nat × Run) → List Candidate
  | [] => []
  | (index, run) :: rest => run.candidates s (index :: trail) ++ activeCandidates s trail rest

end

/-- When a leaf may move by itself: the end of a sleep or a deadline. -/
def leafTimers : Run → List Nat
  | working _ _ (.task work) =>
    work.deadline?.toList ++
      (match work.progress with | .paused wakeAt _ => [wakeAt] | _ => [])
  | working _ _ (.wait work) => [work.wakeAt]
  | _ => []

mutual

/-- The timers of the leaves of a run. -/
def timers : Run → List Nat
  | working _ _ (.map _ _ active _) => activeTimers active
  | run => leafTimers run

/-- The timers of the leaves of the runs of items. -/
def activeTimers : List (Nat × Run) → List Nat
  | [] => []
  | (_, run) :: rest => run.timers ++ activeTimers rest

end

end Run

namespace Execution

/-- What can be done at the leaves of an execution. -/
def candidates (e : Execution) (w : World) : List Run.Candidate :=
  match e.phase with
  | .running run _ => run.candidates (e.situation w) []
  | _ => []

/-- The time-out of a whole execution: its deadline has come and no leaf can move. -/
def expire? (e : Execution) (w : World) : Option (World × Execution) :=
  match e.phase with
  | .running run (some deadline) =>
    -- as long as a leaf can move, the deadline is not looked at
    if deadline ≤ w.clock ∧ (e.candidates w).isEmpty then
      some ({ w with tokens := w.tokens.releaseAll run.tokens },
        e.finish (.error (.executionTimedOut (e.machine.timeout?.getD 0))))
    else none
  | _ => none

/-- When something may happen in an execution by itself. -/
def timers (e : Execution) : List Nat :=
  match e.phase with
  | .running run deadline? => run.timers ++ deadline?.toList
  | _ => []

end Execution

/-! ## Engines -/

/-- Executions that share services and a world, in the order in which they were started. -/
structure Engine where
  services : Services
  world : World
  executions : List Execution

/-- A transition of an engine.  Executions are named by their place. -/
inductive Move where
  | start (execution : Nat)
  | leaf (execution : Nat) (move : Run.LeafMove) (address : List Nat)
  /-- The leaf at an address panics. -/
  | abort (execution : Nat) (address : List Nat)
  | expire (execution : Nat)
  /-- Makes the report at a place among those left for later. -/
  | report (job : Nat)
  /-- Lets the time go on until then. -/
  | wait (time : Nat)
  | cancel (execution : Nat)
  /-- A report from outside, refused or not. -/
  | settle (token : String) (settlement : Settlement)
deriving Repr, Inhabited

namespace Engine

/-- An engine without executions. -/
def initial (services : Services) (origin : Timestamp) : Engine :=
  ⟨services, World.initial origin, []⟩

/-- The engine with one execution changed together with the world. -/
def update? (engine : Engine) (execution : Nat) (f : Execution → Option (World × Execution)) :
    Option Engine := do
  let (world, e) ← f (← engine.executions[execution]?)
  return { engine with world, executions := engine.executions.set execution e }

/-- The engine after a move, if the move is possible. -/
def move (engine : Engine) : Move → Option Engine
  | .start execution =>
    engine.update? execution fun e => (e.start? engine.world).map fun e => (engine.world, e)
  | .leaf execution move address =>
    engine.update? execution (Execution.moveAt? engine.services engine.world move address)
  | .abort execution address => engine.update? execution (·.abort? engine.world address)
  | .expire execution => engine.update? execution (·.expire? engine.world)
  | .report job => do
    let j ← engine.world.jobs[job]?
    if j.due ≤ engine.world.clock then
      -- nobody hears whether a report that was left for later is refused
      let (tokens, _) := engine.world.tokens.settleAll j.token j.settlements
      let jobs := engine.world.jobs.eraseIdx job
      return { engine with world := { engine.world with tokens, jobs } }
    else none
  | .wait time =>
    if engine.world.clock ≤ time then
      some { engine with world := { engine.world with clock := time } }
    else none
  | .cancel execution =>
    engine.update? execution fun e => some (engine.world, { e with cancelled := true })
  | .settle token settlement =>
    some { engine with
      world := { engine.world with tokens := (engine.world.tokens.settle token settlement).1 } }

/-- The engine after moves in order, if all are possible. -/
def run (engine : Engine) : List Move → Option Engine
  | [] => some engine
  | m :: ms => (engine.move m).bind (·.run ms)

/-- The engine with a new execution of a machine, and the place of that execution. -/
def launch (engine : Engine) (name : String) (machine : Machine) (input : Json) : Engine × Nat :=
  let (world, executionName) := engine.world.takeName
  let e := Execution.create (.ofMachine name executionName input world.now) machine
  ({ engine with world, executions := engine.executions ++ [e] }, engine.executions.length)

/-- The result of an execution that has finished. -/
def result? (engine : Engine) (execution : Nat) : Option (Except Fault Json) :=
  engine.executions[execution]?.bind (·.result?)

end Engine

end StateFlow
