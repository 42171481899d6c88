import StateFlow.Proofs.Execution.Departures
import StateFlow.Proofs.Execution.Moves

/-!
# How a leaf fails

`Raises scope m s run fault` lists, for a leaf that walks through the machine `m`, every cause by
which a move of it can raise a fault: the cancellation, a payload, and for each kind of state what
its definition or its services lack.  Nothing is assumed of the machine here; that a valid one rules
most causes out is read off the list.

The lemmas go through the functions of a step in the order in which a step calls them, and each says
of one function what the leaf becomes.

## Main definitions

* `Run.Fits m P`: a leaf that walks through `m` and fails with faults in `P` only
* `Raises`: the causes of faults
* `MapBegins`: the items of a Map state begin

## Main results

* `Run.moveLeaf_cases`: what a move of a leaf leads to
-/

namespace StateFlow

/-! ## The runs that a leaf becomes -/

/-- A level mentions the states that a run may be about to enter. -/
def Machine.Mentions (m : Machine) (name : String) : Prop :=
  name = m.startAt ∨ ∃ source state, m.state? source = some state ∧ name ∈ state.targets

theorem Machine.LevelValid.known_of_mentions {m : Machine} (h : m.LevelValid) {name : String}
    (hn : m.Mentions name) : (m.state? name).isSome := by
  rcases hn with rfl | ⟨source, state, hs, hmem⟩
  · exact h.start_known
  · exact h.known_of_targets hs hmem

/-- What a level says of a leaf that walks through it, which fails with certain faults only. -/
def Run.Fits (m : Machine) (P : Fault → Prop) : Run → Prop
  | .entering name _ => m.Mentions name
  | .working name _ (.task work) => m.state? name = some (.task work.task)
  | .working name _ (.wait work) => m.state? name = some (.wait work.wait)
  | .working _ _ (.map ..) => False
  | .leaving name departure => ∃ state, m.state? name = some state ∧ state.Leads departure
  | .ended (.ok _) => True
  | .ended (.error fault) => P fault

namespace Run

variable {m : Machine} {P : Fault → Prop} {name : String}

theorem fits_ofOutcome {state : State} (hs : m.state? name = some state)
    {x : Except Fault Departure} (hfails : FailsOnly P x) (hleads : Yields state.Leads x) :
    (ofOutcome name x).Fits m P := by
  cases x with
  | ok d => exact ⟨state, hs, hleads d rfl⟩
  | error fault => exact hfails fault rfl

end Run

section

variable {m : Machine} {P : Fault → Prop} {name : String} (hpayload : ∀ f, f.OfPayload → P f)

include hpayload

theorem TaskState.beginPlain_fits {task : TaskState} (hs : m.state? name = some (.task task))
    (scope : Scope) (s : Situation) (input effective context : Json) (binding : Binding) :
    (task.beginPlain scope s name input effective context binding).2.Fits m P := by
  unfold beginPlain
  split
  · next fault h =>
    exact hpayload fault (Template.effectiveInput_failsOnly effective context _ fault h)
  · exact hs

theorem TaskState.beginCallback_fits {task : TaskState} (hs : m.state? name = some (.task task))
    (scope : Scope) (s : Situation) (input effective context : Json) (binding : Binding) :
    (task.beginCallback scope s name input effective context binding).2.Fits m P := by
  unfold beginCallback
  dsimp only
  split
  · next fault h => exact hpayload fault (Template.callbackPayload_failsOnly _ _ _ fault h)
  · exact hs

theorem TaskState.begin_fits {task : TaskState} (hs : m.state? name = some (.task task))
    (scope : Scope) (s : Situation) (input context : Json)
    (hunbound : scope.services.bindings.lookup? scope.identity.machineName name = none →
      P (.unboundTask scope.identity.machineName name)) :
    (task.begin scope s name input context).2.Fits m P := by
  unfold begin
  split
  · next fault h => exact hpayload fault (task.input.project_failsOnly input fault h)
  · dsimp only
    split
    · next h => exact hunbound h
    · split
      · exact task.beginCallback_fits hpayload hs scope s input _ context _
      · exact task.beginPlain_fits hpayload hs scope s input _ context _

theorem WaitState.begin_fits {wait : WaitState} (hs : m.state? name = some (.wait wait))
    (scope : Scope) (s : Situation) (input : Json)
    (hdelay : ∀ flaw, (∀ found, flaw = .count found → wait.delays.length ≠ 1) →
      P (.invalidDelay name flaw)) :
    (wait.begin scope s name input).2.Fits m P := by
  have hplanned : FailsOnly P (do
      let effective ← wait.input.project input
      return (effective, ← wait.nanoseconds name effective s.world.now)) := by
    refine .bind ((wait.input.project_failsOnly input).mono hpayload) fun effective => ?_
    refine .bind ((wait.nanoseconds_failsOnly name effective _).mono ?_) fun _ => .ok _
    rintro fault ((h | ⟨flaw, rfl, hflaw⟩) | ⟨hcount, rfl⟩)
    · exact hpayload fault h
    · exact hdelay flaw fun found h => absurd h (hflaw found)
    · exact hdelay _ fun _ _ => hcount
  unfold begin
  dsimp only
  split
  · next fault h => exact hplanned fault h
  · exact hs

theorem TaskWork.finish_fits {work : TaskWork} (hs : m.state? name = some (.task work.task))
    (s : Situation) (input : Json) {result : Except Fault Json} (hresult : FailsOnly P result) :
    (work.finish s name input result).2.Fits m P := by
  refine Run.fits_ofOutcome hs ?_ (.bind fun a _ => work.task.outcome_leads input a)
  exact .bind hresult fun a => (work.task.outcome_failsOnly input a).mono hpayload

theorem WaitWork.outcome_fits {work : WaitWork} (hs : m.state? name = some (.wait work.wait)) :
    (Run.ofOutcome name (work.wait.outcome work.effective)).Fits m P :=
  Run.fits_ofOutcome hs ((work.wait.outcome_failsOnly work.effective).mono hpayload)
    (work.wait.outcome_leads work.effective)

end

/-! ## What a task finds -/

/-- The faults of the function of a task, and of a token that was not completed. -/
def Fault.OfTask (name : String) (s : Situation) (fault : Fault) : Prop :=
  (∃ message, fault = .taskFailed name message) ∨ (fault = .cancelled ∧ s.cancelled)

theorem awaitedResult?_failsOnly {name token : String} {reception : Reception}
    {result : Except Fault Json} (h : awaitedResult? name token reception = some result)
    (s : Situation) : FailsOnly (Fault.OfTask name s) result := by
  unfold awaitedResult? at h
  split at h <;> cases h
  · exact .ok _
  all_goals exact .error (.inl ⟨_, rfl⟩)

theorem TaskWork.Advances.failsOnly {work : TaskWork} {name : String} {s s' : Situation}
    {result : Except Fault Json} (h : work.Advances name s s' (.done result)) :
    FailsOnly (Fault.OfTask name s) result := by
  cases h with
  | acting _ h =>
    cases Behaviour.advances_of_advance h with
    | result _ => exact .ok _
    | failed => exact .error (.inl ⟨_, rfl⟩)
  | completed _ _ h => exact awaitedResult?_failsOnly h s
  | interrupted _ h => exact .error (.inr ⟨rfl, h⟩)

/-! ## Moves of a leaf -/

/-- The causes by which a leaf of a level raises a fault. -/
inductive Raises (scope : Scope) (m : Machine) (s : Situation) : Run → Fault → Prop
  | cancelled {run : Run} (h : s.cancelled) : Raises scope m s run .cancelled
  | payload {run : Run} {fault : Fault} (h : fault.OfPayload) : Raises scope m s run fault
  | unknown {name : String} {input : Json} (h : m.state? name = none) :
      Raises scope m s (.entering name input) (.stateNotFound name)
  | kind {name : String} {input : Json} {state : State} (hs : m.state? name = some state)
      (h : state.kind ∉ scope.services.kinds ∨ state.kind = .parallel) :
      Raises scope m s (.entering name input) (Services.kindFault state.kind)
  | unbound {name : String} {input : Json} {task : TaskState}
      (hs : m.state? name = some (.task task))
      (h : scope.services.bindings.lookup? scope.identity.machineName name = none) :
      Raises scope m s (.entering name input) (.unboundTask scope.identity.machineName name)
  | delay {name : String} {input : Json} {wait : WaitState} {flaw : DelayFlaw}
      (hs : m.state? name = some (.wait wait))
      (h : ∀ found, flaw = .count found → wait.delays.length ≠ 1) :
      Raises scope m s (.entering name input) (.invalidDelay name flaw)
  | choice {name : String} {input : Json} {choice : ChoiceState} {fault : Fault}
      (hs : m.state? name = some (.choice choice))
      (h : choice.Fails name input (Context.ofState scope.identity name s.world.now) fault) :
      Raises scope m s (.entering name input) fault
  | declared {name : String} {input : Json} {fail : FailState}
      (hs : m.state? name = some (.fail fail)) :
      Raises scope m s (.entering name input) (.stateFailed name fail.error? fail.cause?)
  | unrunnable {name : String} {input : Json} {settings : MapSettings}
      {itemProcessor? iterator? : Option Machine}
      (hs : m.state? name = some (.map settings itemProcessor? iterator?))
      (h : processor? itemProcessor? iterator? = none) :
      Raises scope m s (.entering name input) (.invalidDefinition [.unrunnable name])
  | items {name typeName : String} {input : Json} {settings : MapSettings}
      {itemProcessor? iterator? : Option Machine}
      (hs : m.state? name = some (.map settings itemProcessor? iterator?)) :
      Raises scope m s (.entering name input) (.invalidItems name typeName)
  | failed {name message : String} {input : Json} {work : TaskWork} :
      Raises scope m s (.working name input (.task work)) (.taskFailed name message)
  | timedOut {name : String} {seconds : Nat} {input : Json} {work : TaskWork} :
      Raises scope m s (.working name input (.task work)) (.taskTimedOut name seconds)

namespace Raises

variable {scope : Scope} {m : Machine} {s : Situation} {run : Run} {fault : Fault}

/-- A leaf passes on nobody's fault. -/
theorem ne_itemFailed (h : Raises scope m s run fault) :
    ∀ name index source, fault ≠ .itemFailed name index source := by
  rintro name index source rfl
  cases h with
  | payload h => exact h
  | choice hs h =>
    rcases h with h | ⟨_, _, _, _, h⟩ | ⟨h, -⟩
    · exact h
    · cases h
    · cases h

/-- A task is unbound only where it is entered and nothing is bound to its state. -/
theorem of_unboundTask {machine name : String}
    (h : Raises scope m s run (.unboundTask machine name)) :
    machine = scope.identity.machineName ∧
      scope.services.bindings.lookup? machine name = none ∧
      ∃ input task, run = .entering name input ∧ m.state? name = some (.task task) := by
  cases h with
  | payload h => exact h.elim
  | unbound hs h => exact ⟨rfl, h, _, _, rfl, hs⟩
  | choice hs h =>
    rcases h with h | ⟨_, _, _, _, h⟩ | ⟨h, -⟩
    · exact h.elim
    · cases h
    · cases h

end Raises

/-- The items of a Map state begin in a situation: as many as may be in progress are started, the
others wait, and what is ready is handed over. -/
def MapBegins (scope : Scope) (m : Machine) (s : Situation) (name : String) (input : Json)
    (s' : Situation) (new : Run) : Prop :=
  ∃ (frame : MapFrame) (items : List Json) (itemProcessor? iterator? : Option Machine),
    m.state? name = some (.map frame.settings itemProcessor? iterator?) ∧
    processor? itemProcessor? iterator? = some frame.machine ∧
    frame.settings.items name input = .ok (frame.effective, items) ∧
    frame.settle s name input []
      (frame.startItems (((List.range items.length).zip items).take
        (frame.settings.limit scope.services)))
      (((List.range items.length).zip items).drop (frame.settings.limit scope.services)) = (s', new)

theorem MapSettings.items_failsOnly (settings : MapSettings) (name : String) (input : Json) :
    FailsOnly (fun fault => fault.OfPayload ∨ ∃ typeName, fault = .invalidItems name typeName)
      (settings.items name input) := by
  unfold items
  refine .bind ((settings.input.project_failsOnly input).mono fun _ => .inl) fun effective => ?_
  split
  · refine .bind ((resolvePayload_failsOnly effective _).mono fun _ => .inl) fun found => ?_
    dsimp only
    split
    · exact .ok _
    · exact .error (.inr ⟨_, rfl⟩)
  · refine .bind (.ok _) fun found => ?_
    dsimp only
    split
    · exact .ok _
    · exact .error (.inr ⟨_, rfl⟩)

namespace Run

variable {scope : Scope} {move : LeafMove} {m : Machine} {item? : Option Nat} {s s' : Situation}
  {run new : Run}

/-- Beginning a Map state begins its items or fails. -/
theorem begin_map_cases {settings : MapSettings} {itemProcessor? iterator? : Option Machine}
    {name : String} {input context : Json} {s₀ : Situation}
    (hs : m.state? name = some (.map settings itemProcessor? iterator?))
    (h : settings.begin (processor? itemProcessor? iterator?) scope s name input context =
      (s', new)) :
    new.Fits m (Raises scope m s₀ (.entering name input)) ∨
      MapBegins scope m s name input s' new := by
  unfold MapSettings.begin at h
  split at h
  · next hnone =>
    cases h
    exact .inl (.unrunnable hs hnone)
  · next inner hinner =>
    split at h
    · next fault hfault =>
      cases h
      rcases settings.items_failsOnly name input fault hfault with hf | ⟨typeName, rfl⟩
      · exact .inl (.payload hf)
      · exact .inl (.items hs)
    -- nothing can fail any more before the items have begun
    · next effective items hitems =>
      exact .inr ⟨⟨settings, inner, effective, context⟩, items, itemProcessor?, iterator?, hs,
        hinner, hitems, h⟩

/-- Entering a state does its work, begins it, or fails. -/
theorem Enters.cases {name : String} {input : Json}
    (h : Enters scope m item? s name input s' new) :
    new.Fits m (Raises scope m s (.entering name input)) ∨
      MapBegins scope m (s.emit (.stateEntered name .map input item?)) name input s' new := by
  have hpayload : ∀ f : Fault, f.OfPayload → Raises scope m s (.entering name input) f :=
    fun _ => .payload
  cases h with
  | cancelled h => exact .inl (.cancelled h)
  | unknown _ h => exact .inl (.unknown h)
  | refused _ hs h => exact .inl (.kind hs (.inl h))
  | @begun state _ _ _ hs _ h =>
    cases state with
    | pass p =>
      cases h
      exact .inl (fits_ofOutcome hs ((p.outcome_failsOnly input).mono hpayload)
        (p.outcome_leads input))
    | task t =>
      obtain rfl : _ = new := congrArg Prod.snd h
      exact .inl (t.begin_fits hpayload hs scope _ input _ (.unbound hs))
    | wait w =>
      obtain rfl : _ = new := congrArg Prod.snd h
      exact .inl (w.begin_fits hpayload hs scope _ input fun flaw => .delay hs)
    | choice c =>
      cases h
      exact .inl (fits_ofOutcome hs
        ((c.outcome_failsOnly name input _).mono fun _ => .choice hs)
        (c.outcome_leads name input _))
    | fail f =>
      cases h
      exact .inl (.declared hs)
    | succeed e =>
      cases h
      exact .inl (fits_ofOutcome hs ((e.outcome_failsOnly input).mono hpayload)
        (e.outcome_leads input))
    | map settings itemProcessor? iterator? => exact begin_map_cases hs h
    | parallel p =>
      cases h
      exact .inl (.kind hs (.inr rfl))

/-- Leaving a state leads to a state that the level mentions, or to the end. -/
theorem Leaves.fits {name : String} {departure : Departure}
    (h : Leaves item? s name departure s' new)
    (hrun : (leaving name departure).Fits m (Raises scope m s (.leaving name departure))) :
    new.Fits m (Raises scope m s (.leaving name departure)) := by
  obtain ⟨state, hs, hleads⟩ := hrun
  cases h with
  | cancelled h => exact .cancelled h
  | @next next _ hnext => exact .inr ⟨name, state, hs, hleads next hnext⟩
  | last _ _ => trivial

/-- A move of a task leaves it at work, or leads out of it. -/
theorem Moves.task_fits {name : String} {input : Json} {work : TaskWork}
    (hs : m.state? name = some (.task work.task))
    (h : Moves scope move m item? s (.working name input (.task work)) s' new) :
    new.Fits m (Raises scope m s (.working name input (.task work))) := by
  cases h with
  | going _ => exact hs
  | @done _ _ _ s₁ result h =>
    refine work.finish_fits (fun _ => .payload) hs s₁ input (h.failsOnly.mono ?_)
    rintro fault (⟨message, rfl⟩ | ⟨rfl, hcancelled⟩)
    · exact .failed
    · exact .cancelled hcancelled
  | timedOut _ => exact .timedOut
  | heeded h => exact .cancelled h

/-- A move of a Wait state leads out of it. -/
theorem Moves.wait_fits {name : String} {input : Json} {work : WaitWork}
    (hs : m.state? name = some (.wait work.wait))
    (h : Moves scope move m item? s (.working name input (.wait work)) s' new) :
    new.Fits m (Raises scope m s (.working name input (.wait work))) := by
  cases h with
  | slept _ => exact WaitWork.outcome_fits (fun _ => .payload) hs
  | woken h => exact .cancelled h

/-- **What a move of a leaf leads to**: a leaf that fits the level and fails with what the old one
can raise, or the items of a Map state. -/
theorem moveLeaf_cases {P : Fault → Prop} (hrun : run.Fits m P)
    (h : moveLeaf scope move m item? s run = some (s', new)) :
    new.Fits m (Raises scope m s run) ∨
    ∃ name input, run = .entering name input ∧
      MapBegins scope m (s.emit (.stateEntered name .map input item?)) name input s' new := by
  cases run with
  | entering name input =>
    cases moves_of_moveLeaf h with
    | entering h =>
      rcases h.cases with hfits | hbegins
      · exact .inl hfits
      · exact .inr ⟨name, input, rfl, hbegins⟩
  | leaving name departure =>
    cases moves_of_moveLeaf h with
    | leaving h => exact .inl (h.fits hrun)
  | working name input work =>
    cases work with
    | task work => exact .inl ((moves_of_moveLeaf h).task_fits hrun)
    | wait work => exact .inl ((moves_of_moveLeaf h).wait_fits hrun)
    | map frame delivered active waiting => exact hrun.elim
  | ended result => cases moves_of_moveLeaf h

end Run

end StateFlow
