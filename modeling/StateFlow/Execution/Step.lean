import StateFlow.DataFlow.Template
import StateFlow.Execution.Run
import StateFlow.Execution.Situation
import StateFlow.Machine.Violation

/-!
# Steps of a run

One step of a run is one step of one of its leaves: a state is entered, a function takes a step, a
delay ends, a state is left.  `Run.moveAt` makes such a move of the leaf at an address, the list of
the item indices that lead to it, and lets every Map state on the way hand over what has become
ready.  Which leaf moves next is left open; a scheduler chooses, and statements about every
interleaving are statements about every list of addresses.

Cancellation is looked at where a state is entered or left, and by a leaf that waits.
-/

namespace StateFlow

/-! ## Map items -/

namespace MapFrame

/-- The run of an item: its input is the item, or the template filled for it. -/
def startItem (frame : MapFrame) (index : Nat) (item : Json) : Run :=
  match frame.settings.template? with
  | none => .start frame.machine item
  | some template =>
    match Template.fill frame.effective (Context.withItem frame.context index item) template with
    | .ok input => .start frame.machine input
    | .error fault => .ended (.error fault)

/-- Items started in order. -/
def startItems (frame : MapFrame) (items : List (Nat × Json)) : List (Nat × Run) :=
  items.map fun (index, item) => (index, frame.startItem index item)

end MapFrame

/-- The fault of a Map state whose item failed; cancellation is not the item's doing. -/
def itemFault (state : String) (index : Nat) : Fault → Fault
  | .cancelled => .cancelled
  | fault => .itemFailed state index fault

/-- What has become of the items of a Map state. -/
inductive Handover where
  | going (delivered : List Json) (active : List (Nat × Run)) (waiting : List (Nat × Json))
  | complete (outputs : List Json)
  | failed (index : Nat) (fault : Fault) (dropped : List (Nat × Run))
deriving Inhabited

/-- Hands over the finished items at the front in order.  For each a waiting one is started; the
first that has failed ends the Map state. -/
def MapFrame.handOver (frame : MapFrame) (delivered : List Json) (active : List (Nat × Run))
    (waiting : List (Nat × Json)) : Handover :=
  match active, waiting with
  -- at least one item may be in progress, so none waits when none is
  | [], _ => .complete delivered
  | (_, .ended (.ok output)) :: active, [] => frame.handOver (delivered ++ [output]) active []
  | (_, .ended (.ok output)) :: active, (index, item) :: waiting =>
    frame.handOver (delivered ++ [output]) (active ++ [(index, frame.startItem index item)]) waiting
  | (index, .ended (.error fault)) :: active, _ => .failed index fault active
  | active, waiting => .going delivered active waiting
termination_by active.length + waiting.length

/-- The run of a Map state after some of its items have moved. -/
def MapFrame.settle (frame : MapFrame) (s : Situation) (state : String) (input : Json)
    (delivered : List Json) (active : List (Nat × Run)) (waiting : List (Nat × Json)) :
    Situation × Run :=
  match frame.handOver delivered active waiting with
  | .going delivered active waiting =>
    (s, .working state input (.map frame delivered active waiting))
  | .complete outputs => (s, .ofOutcome state (frame.settings.outcome input outputs))
  | .failed index fault dropped =>
    (s.release (Run.activeTokens dropped), .ended (.error (itemFault state index fault)))

/-! ## Beginning the work of a state -/

/-- Calls the function of a binding. -/
def callFunction (scope : Scope) (s : Situation) (binding : Binding) (input context : Json) :
    Situation × Progress :=
  match scope.services.invoker binding with
  | none => (s, .acting (.answer (.error (Invoker.missingMessage binding))))
  | some handler =>
    (s.recordCall ⟨binding, input, context⟩,
      .acting (handler (s.world.callsOf binding) input context))

/-- A deadline so many seconds from now. -/
def World.deadlineAfter (w : World) (seconds : Nat) : Nat := w.clock + seconds * 1000

namespace TaskState

/-- Begins a task that returns its result. -/
def beginPlain (task : TaskState) (scope : Scope) (s : Situation) (state : String)
    (input effective context : Json) (binding : Binding) : Situation × Run :=
  match Template.effectiveInput effective context task.parameters? with
  | .error fault => (s, .ended (.error fault))
  | .ok argument =>
    let deadline? := task.timeout?.map s.world.deadlineAfter
    let (s, progress) := callFunction scope s binding argument context
    (s, .working state input (.task ⟨task, progress, none, deadline?⟩))

/-- Begins a task whose token is completed from outside. -/
def beginCallback (task : TaskState) (scope : Scope) (s : Situation) (state : String)
    (input effective context : Json) (binding : Binding) : Situation × Run :=
  let deadline? := task.timeout?.map s.world.deadlineAfter
  -- the token comes first, because the template may name it
  let (world, token) := s.world.issueToken
  let s := { s with world }
  let context := Context.withToken context token
  match Template.callbackPayload effective context task.parameters? with
  | .error fault => (s.release [token], .ended (.error fault))
  | .ok argument =>
    let (s, progress) := callFunction scope s binding argument context
    (s, .working state input (.task ⟨task, progress, some token, deadline?⟩))

/-- Begins the work of a Task state. -/
def begin (task : TaskState) (scope : Scope) (s : Situation) (state : String)
    (input context : Json) : Situation × Run :=
  match task.input.project input with
  | .error fault => (s, .ended (.error fault))
  | .ok effective =>
    let machine := scope.identity.machineName
    match scope.services.bindings.lookup? machine state with
    | none => (s, .ended (.error (.unboundTask machine state)))
    | some binding =>
      if task.isCallback then task.beginCallback scope s state input effective context binding
      else task.beginPlain scope s state input effective context binding

end TaskState

/-- Begins the work of a Wait state. -/
def WaitState.begin (wait : WaitState) (scope : Scope) (s : Situation) (state : String)
    (input : Json) : Situation × Run :=
  let planned : Except Fault (Json × Nat) := do
    let effective ← wait.input.project input
    return (effective, ← wait.nanoseconds state effective s.world.now)
  match planned with
  | .error fault => (s, .ended (.error fault))
  | .ok (effective, nanoseconds) =>
    let wakeAt := s.world.clock + scope.services.sleeper nanoseconds
    (s.recordSleep nanoseconds, .working state input (.wait ⟨wait, effective, wakeAt⟩))

namespace MapSettings

/-- The items of a Map state and what it sees of its input. -/
def items (settings : MapSettings) (state : String) (input : Json) :
    Except Fault (Json × List Json) := do
  let effective ← settings.input.project input
  let found ← match settings.itemsPath? with
    | some expression => resolvePayload effective expression
    | none => .ok effective
  match found with
  | .array items => return (effective, items)
  | other => .error (.invalidItems state other.typeName)

/-- The greatest number of items in progress; at least one. -/
def limit (settings : MapSettings) (services : Services) : Nat :=
  max 1 (if settings.maxConcurrency = 0 then services.concurrency else settings.maxConcurrency)

/-- Begins the work of a Map state. -/
def begin (settings : MapSettings) (machine? : Option Machine) (scope : Scope) (s : Situation)
    (state : String) (input context : Json) : Situation × Run :=
  match machine? with
  | none => (s, .ended (.error (.invalidDefinition [.unrunnable state])))
  | some machine =>
    match settings.items state input with
    | .error fault => (s, .ended (.error fault))
    | .ok (effective, items) =>
      let frame : MapFrame := ⟨settings, machine, effective, context⟩
      let numbered := (List.range items.length).zip items
      let limit := settings.limit scope.services
      frame.settle s state input [] (frame.startItems (numbered.take limit)) (numbered.drop limit)

end MapSettings

/-- Begins the work of a state, or does all of it where nothing has to be waited for. -/
def State.begin (state : State) (scope : Scope) (s : Situation) (name : String)
    (input context : Json) : Situation × Run :=
  match state with
  | .pass p => (s, .ofOutcome name (p.outcome input))
  | .task t => t.begin scope s name input context
  | .wait w => w.begin scope s name input
  | .choice c => (s, .ofOutcome name (c.outcome name input context))
  | .fail f => (s, .ofOutcome name (f.outcome name))
  | .succeed e => (s, .ofOutcome name (e.outcome input))
  | .map settings itemProcessor? iterator? =>
    settings.begin (processor? itemProcessor? iterator?) scope s name input context
  | .parallel _ => (s, .ended (.error (Services.kindFault .parallel)))

/-! ## Entering and leaving -/

/-- Enters a state. -/
def Run.enter (scope : Scope) (m : Machine) (item? : Option Nat) (s : Situation) (name : String)
    (payload : Json) : Situation × Run :=
  if s.cancelled then (s, .ended (.error .cancelled))
  else match m.state? name with
  | none => (s, .ended (.error (.stateNotFound name)))
  | some state =>
    match scope.services.checkKind state.kind with
    | .error fault => (s, .ended (.error fault))
    | .ok () =>
      let context := Context.ofState scope.identity name s.world.now
      state.begin scope (s.emit (.stateEntered name state.kind payload item?)) name payload context

/-- Leaves a state. -/
def Run.leave (item? : Option Nat) (s : Situation) (name : String) (departure : Departure) :
    Situation × Run :=
  if s.cancelled then (s, .ended (.error .cancelled))
  else
    let s := s.emit (.stateExited name departure.payload item?)
    match departure.successor? with
    | some next => (s, .entering next departure.payload)
    | none => (s, .ended (.ok departure.payload))

/-! ## Work in progress -/

/-- The fault of a task with a message. -/
def taskFault (state message : String) : Fault := .taskFailed state message

/-- What a task that awaits its token makes of what it finds; none while there is nothing. -/
def awaitedResult? (state token : String) : Reception → Option (Except Fault Json)
  | .completion (.success output) => some (.ok output)
  | .completion (.failure error (some cause)) =>
    some (.error (taskFault state s!"{error}: {cause}"))
  | .completion (.failure error none) => some (.error (taskFault state error))
  | .closed | .none => some (.error (taskFault state s!"task token '{token}' was revoked"))
  | .empty => none

/-- How a task goes on: with further progress or with its result. -/
inductive TaskAdvance where
  | going (progress : Progress)
  | done (result : Except Fault Json)
deriving Inhabited

/-- The next step of the function of a task. -/
def Behaviour.advance (state : String) (token? : Option String) (s : Situation) :
    Behaviour → Option (Situation × TaskAdvance)
  -- what a callback function returns is not its result
  | answer (.ok result) => some (s, if token?.isSome then .going .awaiting else .done (.ok result))
  | answer (.error message) => some (s, .done (.error (taskFault state message)))
  | pause 0 rest => some (s, .going (.acting rest))
  | pause milliseconds rest => some (s, .going (.paused (s.world.clock + milliseconds) rest))
  | cancel rest => some ({ s with cancelled := true }, .going (.acting rest))
  | settle token settlements rest =>
    let (tokens, outcome) := s.world.tokens.settleAll token settlements
    let s := { s with world := { s.world with tokens } }
    match outcome with
    | .ok () => some (s, .going (.acting rest))
    | .error fault => some (s, .done (.error (taskFault state fault.message)))
  | settleLater milliseconds token settlements rest =>
    some (s.addJob ⟨s.world.clock + milliseconds, token, settlements⟩, .going (.acting rest))
  | hang | panic _ => none

namespace TaskWork

/-- What is reported of a function that panics in its next step. -/
def panic? (work : TaskWork) : Option String :=
  match work.progress with
  | .acting (.panic report) => some report
  | _ => none

/-- The next step of a task, if it can take one. -/
def advance (work : TaskWork) (state : String) (s : Situation) :
    Option (Situation × TaskAdvance) :=
  match work.progress with
  | .acting behaviour => behaviour.advance state work.token? s
  | .paused wakeAt rest => if wakeAt ≤ s.world.clock then some (s, .going (.acting rest)) else none
  | .awaiting =>
    match work.token? with
    | none => none
    | some token =>
      -- a report that has come in counts even after cancellation
      match awaitedResult? state token (s.world.tokens.peek token) with
      | some result => some (s, .done result)
      | none => if s.cancelled then some (s, .done (.error .cancelled)) else none

/-- The run of a task that has its result. -/
def finish (work : TaskWork) (s : Situation) (state : String) (input : Json)
    (result : Except Fault Json) : Situation × Run :=
  (s.release work.token?.toList, .ofOutcome state (result.bind (work.task.outcome input)))

/-- The run of a task after its next step. -/
def step (work : TaskWork) (s : Situation) (state : String) (input : Json) :
    Option (Situation × Run) :=
  (work.advance state s).map fun
    | (s, .going progress) => (s, .working state input (.task { work with progress }))
    | (s, .done result) => work.finish s state input result

/-- True when the deadline of a task has come. -/
def isDue (work : TaskWork) (clock : Nat) : Bool :=
  match work.deadline? with
  | some deadline => deadline ≤ clock
  | none => false

/-- The run of a task that times out: its deadline has come and it cannot take a step. -/
def expire (work : TaskWork) (s : Situation) (state : String) (input : Json) :
    Option (Situation × Run) :=
  -- a step that can be taken at the deadline is taken first, and so is a panic
  if work.isDue s.world.clock ∧ (work.advance state s).isNone ∧ work.panic?.isNone then
    some (work.finish s state input
      (.error (.taskTimedOut state (work.task.timeout?.getD 0))))
  else none

/-- The run of a task that awaits its token and heeds the cancellation. -/
def heed (work : TaskWork) (s : Situation) (state : String) (input : Json) :
    Option (Situation × Run) :=
  match work.progress, work.token? with
  | .awaiting, some _ =>
    if s.cancelled then some (work.finish s state input (.error .cancelled)) else none
  | _, _ => none

end TaskWork

/-- The run of a Wait state whose delay has ended, or that is cancelled. -/
def WaitWork.step (work : WaitWork) (s : Situation) (state : String) : Option (Situation × Run) :=
  if work.wakeAt ≤ s.world.clock then
    some (s, .ofOutcome state (work.wait.outcome work.effective))
  else if s.cancelled then some (s, .ended (.error .cancelled))
  else none

/-- The run of a Wait state that heeds the cancellation. -/
def WaitWork.heed (s : Situation) : Option (Situation × Run) :=
  if s.cancelled then some (s, .ended (.error .cancelled)) else none

/-! ## Steps -/

namespace Run

/-- A step of a leaf. -/
def stepLeaf (scope : Scope) (m : Machine) (item? : Option Nat) (s : Situation) :
    Run → Option (Situation × Run)
  | entering name payload => some (enter scope m item? s name payload)
  | leaving name departure => some (leave item? s name departure)
  | working name input (.task work) => work.step s name input
  | working name _ (.wait work) => work.step s name
  | working _ _ (.map ..) | ended _ => none

/-- The time-out of a leaf. -/
def expireLeaf (s : Situation) : Run → Option (Situation × Run)
  | working name input (.task work) => work.expire s name input
  | _ => none

/-- A leaf that waits heeds the cancellation of its execution. -/
def heedLeaf (s : Situation) : Run → Option (Situation × Run)
  | working name input (.task work) => work.heed s name input
  | working _ _ (.wait _) => WaitWork.heed s
  | _ => none

/-- What can be done at a leaf.  Where what a leaf waits for and the cancellation have both come, it
is left open which of them it takes: `step` is the one and `heed` the other. -/
inductive LeafMove where
  | step
  | expire
  | heed
deriving DecidableEq, Repr, Inhabited

/-- Does something at a leaf. -/
def moveLeaf (scope : Scope) (move : LeafMove) (m : Machine) (item? : Option Nat) (s : Situation)
    (run : Run) : Option (Situation × Run) :=
  match move with
  | .step => stepLeaf scope m item? s run
  | .expire => expireLeaf s run
  | .heed => heedLeaf s run

/-- The run of an active item. -/
def active? (index : Nat) : List (Nat × Run) → Option Run
  | [] => none
  | (i, run) :: rest => if i = index then some run else active? index rest

/-- The active items with the run of one replaced. -/
def setActive (index : Nat) (run : Run) : List (Nat × Run) → List (Nat × Run)
  | [] => []
  | (i, old) :: rest =>
    if i = index then (i, run) :: rest else (i, old) :: setActive index run rest

/-- What is reported of the panic of the leaf that an address leads to. -/
def panicAt? : (address : List Nat) → Run → Option String
  | [], working _ _ (.task work) => work.panic?
  | index :: address, working _ _ (.map _ _ active _) => do
    panicAt? address (← active? index active)
  | _, _ => none

/-- Does something at the leaf that an address leads to. -/
def moveAt (scope : Scope) (move : LeafMove) (m : Machine) (item? : Option Nat) (s : Situation) :
    (address : List Nat) → Run → Option (Situation × Run)
  | [], run => moveLeaf scope move m item? s run
  | index :: address, working name input (.map frame delivered active waiting) => do
    let run ← active? index active
    let (s, run) ← moveAt scope move frame.machine (some index) s address run
    return frame.settle s name input delivered (setActive index run active) waiting
  | _ :: _, _ => none

end Run

end StateFlow
