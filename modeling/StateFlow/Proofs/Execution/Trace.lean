import StateFlow.Proofs.Execution.Change

/-!
# The trace of an execution

The events of an execution are its start, then events of states, then one event that ends it.  Those
of its items are told in between as the items go on; without them the trace is a walk through the
machine: the start state is entered with the input, what is entered is left, and what is handed on
by one state enters the one that it leads to (`Walk`).

The walk is kept by looking at the top frame alone.  A move of its leaf tells what the walk tells
next, and a move of an item tells nothing of the top level and keeps the Map state at work, or
brings it to its departure.

## Main definitions

* `Event.isOfState`, `Event.isTop`: the events of states, and those of no item
* `State.Departs`: how a state can be left, for which state and with what
* `Position`, `Walk`: where a walk has come to, and what it has told
* `Event.Tells`: the event that ends an execution tells its result
* `Execution.Traced`: the trace of an execution agrees with its phase

## Main results

* `Run.Walks.moveAt`: a move of a run continues the walk
* `Execution.Traced.change`: an execution stays traced
-/

namespace StateFlow

/-! ## Events -/

namespace Event

/-- True of the events that tell of a state, of the machine or of an item. -/
def isOfState : Event → Bool
  | stateEntered .. | stateExited .. => true
  | _ => false

/-- True of the events that tell of a state of no item. -/
def isTop : Event → Bool
  | stateEntered _ _ _ none | stateExited _ _ none => true
  | _ => false

/-- The events that end an execution, with the results that they tell. -/
inductive Tells : Event → Except Fault Json → Prop
  | succeeded (output : Json) : Tells (.executionSucceeded output) (.ok output)
  | cancelled : Tells .executionCancelled (.error .cancelled)
  | failed {fault : Fault} (h : fault ≠ .cancelled) :
      Tells (.executionFailed fault.errorName fault.cause?) (.error fault)

theorem tells_ending (result : Except Fault Json) : (ending result).Tells result := by
  cases result with
  | ok output => exact .succeeded output
  | error fault =>
    cases fault with
    | cancelled => exact .cancelled
    | _ => exact .failed nofun

theorem isEnding_of_isOfState {event : Event} (h : event.isOfState = true) :
    event.isEnding = false := by
  cases event with
  | stateEntered => rfl
  | stateExited => rfl
  | _ => cases h

@[simp] theorem isEnding_ending (result : Except Fault Json) :
    (ending result).isEnding = true := by
  cases result with
  | ok output => rfl
  | error fault => cases fault <;> rfl

@[simp] theorem isOfState_ending (result : Except Fault Json) :
    (ending result).isOfState = false := by
  cases result with
  | ok output => rfl
  | error fault => cases fault <;> rfl

/-- The events that end an execution with a result.  One that was aborted tells nothing. -/
def closing : Except Fault Json → List Event
  | .error (.executionAborted _) => []
  | result => [ending result]

theorem closing_of_unaborted {result : Except Fault Json} (h : (Run.ended result).Unaborted) :
    closing result = [ending result] := by
  cases result with
  | ok output => rfl
  | error fault =>
    cases fault with
    | executionAborted report => cases h
    | _ => rfl

/-- Events of the states of an item, or of no item. -/
def IsOf (item? : Option Nat) : Event → Prop
  | stateEntered _ _ _ i | stateExited _ _ i => i = item?
  | _ => False

theorem IsOf.isOfState {item? : Option Nat} {event : Event} (h : event.IsOf item?) :
    event.isOfState = true := by
  cases event with
  | stateEntered => rfl
  | stateExited => rfl
  | _ => exact h.elim

theorem IsOf.isTop_eq {item? : Option Nat} {event : Event} (h : event.IsOf item?) :
    event.isTop = item?.isNone := by
  cases event with
  | stateEntered state kind input i =>
    obtain rfl : i = item? := h
    cases i <;> rfl
  | stateExited state output i =>
    obtain rfl : i = item? := h
    cases i <;> rfl
  | _ => exact h.elim

end Event

/-! ## Departures -/

/-- How a state can be left, for the state that comes next, if any, and with what is handed on: what
its function, its delay or its items contribute is left open, and everything else follows from its
definition and its input. -/
inductive State.Departs (identity : Identity) (name : String) (input : Json) :
    State → Option String → Json → Prop
  | pass {p : PassState} {effective merged output : Json}
      (hinput : p.input.project input = .ok effective)
      (hmerged : p.result.merge input effective = .ok merged)
      (houtput : p.output.project merged = .ok output) :
      Departs identity name input (.pass p)
        (if p.transition.ends then none else p.transition.next?) output
  | task {t : TaskState} {result merged output : Json}
      (hmerged : t.result.merge input result = .ok merged)
      (houtput : t.output.project merged = .ok output) :
      Departs identity name input (.task t)
        (if t.transition.ends then none else t.transition.next?) output
  | wait {w : WaitState} {effective output : Json}
      (hinput : w.input.project input = .ok effective)
      (houtput : w.output.project effective = .ok output) :
      Departs identity name input (.wait w)
        (if w.transition.ends then none else w.transition.next?) output
  /-- The rules see the input, and a context that tells when the state was entered. -/
  | choice {c : ChoiceState} {effective output : Json} {entered : Timestamp}
      {matched : Option Rule} {next : String} (hinput : c.input.project input = .ok effective)
      (hmatched : Rule.firstHolding effective (Context.ofState identity name entered) c.rules =
        .ok matched)
      (hnext : (matched.bind Rule.next? <|> c.default?) = some next)
      (houtput : c.output.project effective = .ok output) :
      Departs identity name input (.choice c) (some next) output
  | succeed {e : SucceedState} {effective output : Json}
      (hinput : e.input.project input = .ok effective)
      (houtput : e.output.project effective = .ok output) :
      Departs identity name input (.succeed e) none output
  | map {settings : MapSettings} {itemProcessor? iterator? : Option Machine} {outputs : List Json}
      {merged output : Json} (hmerged : settings.result.merge input (.array outputs) = .ok merged)
      (houtput : settings.output.project merged = .ok output) :
      Departs identity name input (.map settings itemProcessor? iterator?)
        (if settings.transition.ends then none else settings.transition.next?) output

theorem Departure.successor?_ofTransition (t : Transition) (payload : Json) :
    (ofTransition t payload).successor? = if t.ends then none else t.next? := by
  obtain ⟨next?, ends⟩ := t
  cases next? with
  | none => simp [ofTransition, successor?]
  | some next => simp [ofTransition, successor?]

section

variable {identity : Identity} {name : String} {input : Json}

theorem PassState.outcome_departs (p : PassState) :
    Yields (fun d => (State.pass p).Departs identity name input d.successor? d.payload)
      (p.outcome input) := by
  refine .bind fun effective hinput => .bind fun merged hmerged =>
    .bind fun output houtput => .ok ?_
  rw [Departure.successor?_ofTransition]
  exact .pass hinput hmerged houtput

theorem TaskState.outcome_departs (t : TaskState) (result : Json) :
    Yields (fun d => (State.task t).Departs identity name input d.successor? d.payload)
      (t.outcome input result) := by
  refine .bind fun merged hmerged => .bind fun output houtput => .ok ?_
  rw [Departure.successor?_ofTransition]
  exact .task hmerged houtput

theorem WaitState.outcome_departs (w : WaitState) {effective : Json}
    (hinput : w.input.project input = .ok effective) :
    Yields (fun d => (State.wait w).Departs identity name input d.successor? d.payload)
      (w.outcome effective) := by
  refine .bind fun output houtput => .ok ?_
  rw [Departure.successor?_ofTransition]
  exact .wait hinput houtput

theorem ChoiceState.outcome_departs (c : ChoiceState) (entered : Timestamp) :
    Yields (fun d => (State.choice c).Departs identity name input d.successor? d.payload)
      (c.outcome name input (Context.ofState identity name entered)) := by
  refine .bind fun effective hinput => .bind fun matched hmatched => ?_
  split
  · exact .error _
  · next next hnext =>
    exact .bind fun output houtput => .ok (.choice hinput hmatched hnext houtput)

theorem SucceedState.outcome_departs (e : SucceedState) :
    Yields (fun d => (State.succeed e).Departs identity name input d.successor? d.payload)
      (e.outcome input) :=
  .bind fun _ hinput => .bind fun _ houtput => .ok (.succeed hinput houtput)

theorem MapSettings.outcome_departs (settings : MapSettings)
    (itemProcessor? iterator? : Option Machine) (outputs : List Json) :
    Yields (fun d => (State.map settings itemProcessor? iterator?).Departs identity name input
      d.successor? d.payload) (settings.outcome input outputs) := by
  refine .bind fun merged hmerged => .bind fun output houtput => .ok ?_
  rw [Departure.successor?_ofTransition]
  exact .map hmerged houtput

end

/-- The departures of the state of a name. -/
def Machine.Departs (m : Machine) (identity : Identity) (name : String) (input : Json)
    (departure : Departure) : Prop :=
  ∃ state, m.state? name = some state ∧ state.Leads departure ∧
    state.Departs identity name input departure.successor? departure.payload

/-! ## Walks -/

/-- Where a walk through a machine has come to. -/
inductive Position where
  /-- It is about to enter a state with a payload. -/
  | before (name : String) (payload : Json)
  /-- It has entered a state with an input and has not left it. -/
  | inside (name : String) (input : Json)
  /-- It has left a last state with an output. -/
  | after (output : Json)

/-- The events that a walk of an execution through its machine tells, and where it has come to. -/
inductive Walk (m : Machine) (identity : Identity) : List Event → Position → Prop
  | start : Walk m identity [] (.before m.startAt identity.input)
  | enter {told : List Event} {name : String} {payload : Json} {state : State}
      (h : Walk m identity told (.before name payload)) (hs : m.state? name = some state) :
      Walk m identity (told ++ [.stateEntered name state.kind payload none]) (.inside name payload)
  | goOn {told : List Event} {name next : String} {input output : Json} {state : State}
      (h : Walk m identity told (.inside name input)) (hs : m.state? name = some state)
      (hd : state.Departs identity name input (some next) output) :
      Walk m identity (told ++ [.stateExited name output none]) (.before next output)
  | finish {told : List Event} {name : String} {input output : Json} {state : State}
      (h : Walk m identity told (.inside name input)) (hs : m.state? name = some state)
      (hd : state.Departs identity name input none output) :
      Walk m identity (told ++ [.stateExited name output none]) (.after output)

/-- The last event of a walk that has come to its end tells the output of the last state. -/
theorem Walk.getLast?_of_after {m : Machine} {identity : Identity} {told : List Event}
    {output : Json} (h : Walk m identity told (.after output)) :
    ∃ name, told.getLast? = some (.stateExited name output none) := by
  cases h with
  | finish h hs hd => exact ⟨_, List.getLast?_concat⟩

/-- What a state is at work on is what its definition says. -/
def Machine.WorksOn (m : Machine) (name : String) (input : Json) : Work → Prop
  | .task work => m.state? name = some (.task work.task)
  | .wait work => m.state? name = some (.wait work.wait) ∧
      work.wait.input.project input = .ok work.effective
  | .map frame _ _ _ => ∃ itemProcessor? iterator?,
      m.state? name = some (.map frame.settings itemProcessor? iterator?)

namespace Run

/-- A run stands where a walk has come to. -/
def StandsAt (m : Machine) (identity : Identity) : Run → Position → Prop
  | .entering name payload, p => p = .before name payload
  | .working name input work, p => p = .inside name input ∧ m.WorksOn name input work
  | .leaving name departure, p =>
    ∃ input, p = .inside name input ∧ m.Departs identity name input departure
  | .ended (.ok output), p => p = .after output
  | .ended (.error _), _ => True

/-- A run has told events of states, and those of no item are the events of a walk that has come to
where the run stands. -/
def Walks (m : Machine) (identity : Identity) (told : List Event) (run : Run) : Prop :=
  (∀ event ∈ told, event.isOfState = true) ∧
    ∃ p, Walk m identity (told.filter Event.isTop) p ∧ run.StandsAt m identity p

variable {m : Machine} {identity : Identity} {told : List Event} {run run' : Run}

theorem walks_start : Walks m identity [] (.start m identity.input) :=
  ⟨by simp, _, .start, rfl⟩

/-- A fault may end a walk wherever it has come to. -/
theorem Walks.error (h : run.Walks m identity told) (fault : Fault) :
    Walks m identity told (.ended (.error fault)) := by
  obtain ⟨htold, p, hwalk, -⟩ := h
  exact ⟨htold, p, hwalk, trivial⟩

theorem standsAt_ofOutcome {name : String} {input : Json} {x : Except Fault Departure}
    (hx : Yields (m.Departs identity name input) x) :
    (ofOutcome name x).StandsAt m identity (.inside name input) := by
  cases x with
  | ok departure => exact ⟨input, rfl, hx departure rfl⟩
  | error fault => trivial

end Run

/-! ## Beginning a state -/

theorem callFunction_events (scope : Scope) (s : Situation) (binding : Binding)
    (input context : Json) :
    (callFunction scope s binding input context).1.events = s.events := by
  unfold callFunction
  split <;> rfl

theorem TaskState.begin_events (task : TaskState) (scope : Scope) (s : Situation) (name : String)
    (input context : Json) : (task.begin scope s name input context).1.events = s.events := by
  unfold begin
  split
  · rfl
  · dsimp only
    split
    · rfl
    · split
      · unfold beginCallback
        dsimp only
        split
        · rfl
        · exact callFunction_events scope _ _ _ _
      · unfold beginPlain
        split
        · rfl
        · exact callFunction_events scope _ _ _ _

/-- A state that begins its work tells nothing. -/
theorem State.begin_events (state : State) (scope : Scope) (s : Situation) (name : String)
    (input context : Json) : (state.begin scope s name input context).1.events = s.events := by
  cases state with
  | task task => exact task.begin_events scope s name input context
  | wait wait =>
    dsimp only [begin, WaitState.begin]
    split <;> rfl
  | map settings itemProcessor? iterator? =>
    dsimp only [begin, MapSettings.begin]
    split
    · rfl
    · split
      · rfl
      · obtain ⟨tokens, htokens⟩ := MapFrame.settle_fst _ s name input [] _ _
        rw [htokens]
        rfl
  | pass p => rfl
  | choice c => rfl
  | fail f => rfl
  | succeed e => rfl
  | parallel p => rfl

section

variable {m : Machine} {identity : Identity} {name : String}

theorem MapFrame.settle_standsAt {frame : MapFrame} {itemProcessor? iterator? : Option Machine}
    (hs : m.state? name = some (.map frame.settings itemProcessor? iterator?)) (s : Situation)
    (input : Json) (delivered : List Json) (active : List (Nat × Run))
    (waiting : List (Nat × Json)) :
    (frame.settle s name input delivered active waiting).2.StandsAt m identity
      (.inside name input) := by
  unfold settle
  split
  · exact ⟨rfl, itemProcessor?, iterator?, hs⟩
  · next outputs _ =>
    exact Run.standsAt_ofOutcome fun departure hd => ⟨_, hs,
      frame.settings.outcome_leads _ _ input outputs departure hd,
      frame.settings.outcome_departs _ _ outputs departure hd⟩
  · trivial

theorem TaskState.begin_standsAt {task : TaskState} (hs : m.state? name = some (.task task))
    (scope : Scope) (s : Situation) (input context : Json) :
    (task.begin scope s name input context).2.StandsAt m identity (.inside name input) := by
  unfold begin
  split
  · trivial
  · dsimp only
    split
    · trivial
    · split
      · unfold beginCallback
        dsimp only
        split
        · trivial
        · exact ⟨rfl, hs⟩
      · unfold beginPlain
        split
        · trivial
        · exact ⟨rfl, hs⟩

theorem WaitState.begin_standsAt {wait : WaitState} (hs : m.state? name = some (.wait wait))
    (scope : Scope) (s : Situation) (input : Json) :
    (wait.begin scope s name input).2.StandsAt m identity (.inside name input) := by
  unfold begin
  dsimp only
  split
  · trivial
  · next effective nanoseconds hplanned =>
    refine ⟨rfl, hs, ?_⟩
    cases hinput : wait.input.project input with
    | error fault =>
      rw [hinput] at hplanned
      cases hplanned
    | ok seen =>
      rw [hinput] at hplanned
      cases hdelay : wait.nanoseconds name seen s.world.now with
      | error fault =>
        simp [hdelay, bind, Except.bind] at hplanned
      | ok found =>
        simp only [hdelay, bind, Except.bind, pure, Except.pure, Except.ok.injEq,
          Prod.mk.injEq] at hplanned
        rw [hplanned.1]

/-- A state that has begun stands inside itself, with its input. -/
theorem State.begin_standsAt {state : State} (hs : m.state? name = some state)
    (services : Services) (s : Situation) (input : Json) (entered : Timestamp) :
    (state.begin ⟨services, identity⟩ s name input
      (Context.ofState identity name entered)).2.StandsAt m identity (.inside name input) := by
  cases state with
  | pass p => exact Run.standsAt_ofOutcome fun departure hd => ⟨_, hs,
      p.outcome_leads input departure hd, p.outcome_departs departure hd⟩
  | task task => exact task.begin_standsAt hs ⟨services, identity⟩ s input _
  | wait wait => exact wait.begin_standsAt hs _ s input
  | choice c => exact Run.standsAt_ofOutcome fun departure hd => ⟨_, hs,
      c.outcome_leads name input _ departure hd, c.outcome_departs entered departure hd⟩
  | fail f => trivial
  | succeed e => exact Run.standsAt_ofOutcome fun departure hd => ⟨_, hs,
      e.outcome_leads input departure hd, e.outcome_departs departure hd⟩
  | map settings itemProcessor? iterator? =>
    dsimp only [begin, MapSettings.begin]
    split
    · trivial
    · split
      · trivial
      · exact MapFrame.settle_standsAt hs s input [] _ _
  | parallel p => trivial

end

/-! ## Moves -/

namespace Run

variable {scope : Scope} {move : LeafMove} {m : Machine} {item? : Option Nat} {s s' : Situation}
  {run run' : Run} {services : Services} {identity : Identity} {told : List Event}

/-- A leaf tells only of its own item. -/
theorem moveLeaf_events (hmove : moveLeaf scope move m item? s run = some (s', run')) :
    ∃ told, s'.events = s.events ++ told ∧ ∀ event ∈ told, event.IsOf item? := by
  have hmoves := moves_of_moveLeaf hmove
  have hsilent : s'.events = s.events →
      ∃ told, s'.events = s.events ++ told ∧ ∀ event ∈ told, event.IsOf item? := by
    intro heq
    exact ⟨[], by simp [heq], by simp⟩
  cases run with
  | entering name input =>
    cases hmoves with
    | entering h =>
      cases h with
      | begun _ hs _ h =>
        obtain rfl : _ = s' := congrArg Prod.fst h
        rw [State.begin_events]
        exact ⟨_, rfl, by simp [Event.IsOf]⟩
      | _ => exact hsilent rfl
  | leaving name departure =>
    cases hmoves with
    | leaving h =>
      cases h with
      | cancelled _ => exact hsilent rfl
      | next _ _ => exact ⟨_, rfl, by simp [Event.IsOf]⟩
      | last _ _ => exact ⟨_, rfl, by simp [Event.IsOf]⟩
  | working name input work => exact hsilent hmoves.keeps.events
  | ended result => cases hmoves

/-- A move of an item tells nothing of the top level. -/
theorem moveAt_cons_events {index : Nat} {address : List Nat}
    (hmove : moveAt scope move m item? s (index :: address) run = some (s', run')) :
    ∃ told, s'.events = s.events ++ told ∧ (∀ event ∈ told, event.isOfState = true) ∧
      told.filter Event.isTop = [] := by
  obtain ⟨leaf, s₁, new, hat, hleaf, tokens, rfl⟩ := moveAt_leaf hmove
  obtain ⟨told, hevents, htold⟩ := moveLeaf_events hleaf
  have hitem : leaf.item?.isNone = false := by
    rw [Option.isNone_eq_false_iff]
    exact Frame.item?_of_at?_cons hat
  refine ⟨told, hevents, fun event hevent => (htold event hevent).isOfState, ?_⟩
  rw [List.filter_eq_nil_iff]
  intro event hevent
  rw [(htold event hevent).isTop_eq, hitem]
  exact Bool.false_ne_true

/-- What a move of the leaf at the top tells is what the walk tells next. -/
theorem Walks.moveLeaf (hrun : run.Walks m identity told)
    (hmove : moveLeaf ⟨services, identity⟩ move m none s run = some (s', run')) :
    ∃ added, s'.events = s.events ++ added ∧ run'.Walks m identity (told ++ added) := by
  obtain ⟨htold, p, hwalk, hp⟩ := hrun
  have hmoves := moves_of_moveLeaf hmove
  -- a move that tells nothing keeps the walk, and only the stand has to be looked at
  have hsilent : s'.events = s.events → run'.StandsAt m identity p →
      ∃ added, s'.events = s.events ++ added ∧ run'.Walks m identity (told ++ added) := by
    intro hevents hstands
    refine ⟨[], by simp [hevents], ?_⟩
    rw [List.append_nil]
    exact ⟨htold, p, hwalk, hstands⟩
  have htells : ∀ {event : Event} {p' : Position}, event.isTop = true →
      event.isOfState = true → Walk m identity (told.filter Event.isTop ++ [event]) p' →
      run'.StandsAt m identity p' → run'.Walks m identity (told ++ [event]) := by
    intro event p' htop hstate hwalk' hstands
    refine ⟨?_, p', by simpa [htop] using hwalk', hstands⟩
    simpa [or_imp, forall_and, hstate] using htold
  cases hmoves with
  | entering h =>
    cases h with
    | @begun state _ _ _ hs _ h =>
      obtain rfl := hp
      obtain rfl : _ = s' := congrArg Prod.fst h
      obtain rfl : _ = run' := congrArg Prod.snd h
      refine ⟨_, State.begin_events state _ _ _ _ _, ?_⟩
      exact htells rfl rfl (.enter hwalk hs) (State.begin_standsAt hs services _ _ _)
    | _ => exact hsilent rfl trivial
  | leaving h =>
    obtain ⟨input, rfl, state, hs, -, hd⟩ := hp
    cases h with
    | cancelled _ => exact hsilent rfl trivial
    | next _ hnext => exact ⟨_, rfl, htells rfl rfl (.goOn hwalk hs (hnext ▸ hd)) rfl⟩
    | last _ hlast => exact ⟨_, rfl, htells rfl rfl (.finish hwalk hs (hlast ▸ hd)) rfl⟩
  | going h => exact hsilent h.keeps.events hp
  | @done name input work s₁ result h =>
    obtain ⟨rfl, hs⟩ := hp
    refine hsilent h.keeps.events (standsAt_ofOutcome fun departure hd => ?_)
    cases result with
    | error fault => cases hd
    | ok output => exact ⟨_, hs, work.task.outcome_leads input output departure hd,
        work.task.outcome_departs output departure hd⟩
  | timedOut _ => exact hsilent rfl trivial
  | heeded _ => exact hsilent rfl trivial
  | @slept name input work _ =>
    obtain ⟨rfl, hs, heffective⟩ := hp
    refine hsilent rfl (standsAt_ofOutcome fun departure hd => ?_)
    exact ⟨_, hs, work.wait.outcome_leads work.effective departure hd,
      work.wait.outcome_departs heffective departure hd⟩
  | woken _ => exact hsilent rfl trivial

/-- **A move of a run continues its walk**, wherever in the run it is made. -/
theorem Walks.moveAt {address : List Nat} (hrun : run.Walks m identity told)
    (hmove : moveAt ⟨services, identity⟩ move m none s address run = some (s', run')) :
    ∃ added, s'.events = s.events ++ added ∧ run'.Walks m identity (told ++ added) := by
  cases address with
  | nil => exact hrun.moveLeaf hmove
  | cons index address =>
    obtain ⟨added, hevents, hstate, htop⟩ := moveAt_cons_events hmove
    obtain ⟨name, input, frame, delivered, active, waiting, old, s₁, new, rfl, -, -, hsettle⟩ :=
      moveAt_cons hmove
    obtain ⟨htold, p, hwalk, rfl, itemProcessor?, iterator?, hs⟩ := hrun
    obtain rfl : _ = run' := congrArg Prod.snd hsettle
    refine ⟨added, hevents, ?_, .inside name input, ?_, ?_⟩
    · intro event hevent
      exact (List.mem_append.mp hevent).elim (htold event) (hstate event)
    · simpa [htop] using hwalk
    · exact MapFrame.settle_standsAt hs s₁ input delivered _ waiting

end Run

/-! ## Executions -/

namespace Execution

variable {e e' : Execution} {services : Services} {w : World}
  {leaf? : Option (Run.LeafMove × List Nat)}

/-- The event that tells of the start of an execution. -/
def startEvent (e : Execution) : Event :=
  .executionStarted e.identity.executionId e.identity.machineName e.identity.input

/-- The trace of an execution agrees with its phase: nothing has been told before the start, then a
walk is told, and at last the result, unless the execution was aborted. -/
def Traced (e : Execution) : Prop :=
  match e.phase with
  | .created => e.events = []
  | .running run _ => ∃ told, e.events = e.startEvent :: told ∧ run.Walks e.machine e.identity told
  | .finished result => ∃ told, e.events = e.startEvent :: (told ++ Event.closing result) ∧
      (Run.ended result).Walks e.machine e.identity told

theorem traced_create (identity : Identity) (machine : Machine) :
    (create identity machine).Traced := rfl

theorem Traced.running (he : e.Traced) {run : Run} {deadline? : Option Nat}
    (hphase : e.phase = .running run deadline?) :
    ∃ told, e.events = e.startEvent :: told ∧ run.Walks e.machine e.identity told := by
  simpa only [Traced, hphase] using he

theorem Traced.start? (he : e.Traced) (h : e.start? w = some e') : e'.Traced := by
  have hevents := start?_events h
  obtain ⟨hphase, started, rfl⟩ := start?_eq_some h
  have hnone : e.events = [] := by simpa only [Traced, hphase] using he
  refine ⟨[], ?_, Run.walks_start⟩
  rw [hevents, hnone]
  rfl

theorem Traced.moveAt? (he : e.Traced) {w' : World} {move : Run.LeafMove} {address : List Nat}
    (h : e.moveAt? services w move address = some (w', e')) : e'.Traced := by
  obtain ⟨run, deadline?, s, run', hphase, hmove, -, rfl⟩ := moveAt?_eq_some h
  obtain ⟨told, hstart, hwalks⟩ := he.running hphase
  obtain ⟨added, hadded, hwalks'⟩ := hwalks.moveAt hmove
  have hevents : s.events = e.startEvent :: (told ++ added) := by
    rw [hadded]
    show e.events ++ added = _
    rw [hstart, List.cons_append]
  rcases withRun_cases (e.inSituation s) deadline? run' with ⟨result, rfl, heq⟩ | ⟨-, heq⟩
  · rw [heq]
    refine ⟨told ++ added, ?_, hwalks'⟩
    show s.events ++ [.ending result] = _
    rw [hevents, List.cons_append, Event.closing_of_unaborted (Run.unaborted_moveAt hmove)]
    rfl
  · rw [heq]
    exact ⟨told ++ added, hevents, hwalks'⟩

/-- **An execution stays traced**, in whichever way it changes. -/
theorem Traced.change (he : e.Traced) (h : e.Change services w leaf? e') : e'.Traced := by
  cases h with
  | same => exact he
  | started h => exact he.start? h
  | moved h => exact he.moveAt? h
  | aborted h =>
    obtain ⟨run, deadline?, report, hphase, -, -, rfl⟩ := abort?_eq_some h
    obtain ⟨told, hstart, hwalks⟩ := he.running hphase
    exact ⟨told, hstart.trans (by rw [Event.closing, List.append_nil]; rfl), hwalks.error _⟩
  | expired h =>
    obtain ⟨run, deadline, hphase, -, rfl⟩ := expire?_eq_some h
    obtain ⟨told, hstart, hwalks⟩ := he.running hphase
    refine ⟨told, ?_, hwalks.error _⟩
    show e.events ++ [_] = _
    rw [hstart, List.cons_append]
    rfl
  | cancelled => exact he

end Execution

end StateFlow
