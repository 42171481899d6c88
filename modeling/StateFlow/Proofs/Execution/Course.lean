import StateFlow.Proofs.Execution.Reporting

/-!
# The course of a run

An execution leaves much open: which leaf of its run moves next, when a function goes on, when a
report is made.  None of this decides what it comes to.  What it tells at its own level and what it
ends with follow from the machine and its input, and from what it reads when it enters a state: the
time, and the name that a callback task gets as its token (`Readings`).  This module says what the
course of a machine is (`Readings.course?`), state after state and item after item, without an
engine; and what the course of a run is that has come some of the way (`Run.course?`).

## Main definitions

* `Readings`: what a run reads from the world, entry by entry
* `Course`: what a run tells at its own level, and its result
* `Behaviour.verdict?`, `State.verdict?`: what the work of a state comes to
* `Readings.course?`, `Run.course?`: the course of a machine, and the rest of that of a run

## Main results

* `MapFrame.gather_handOver`: handing items over does not change what they come to
* `Run.course?_congr`: the course of a run depends on the reports for its own tokens only
-/

namespace StateFlow

/-! ## Readings and courses -/

/-- What a run reads from the world: when it enters a state, the time and the number of the next
name; then what the items of the state read, and what is read after it. -/
inductive Readings where
  | nothing
  | entry (clock named : Nat) (items : Nat → Readings) (next : Readings)

namespace Readings

/-- What an item reads of the state that was entered last. -/
def items : Readings → Nat → Readings
  | nothing, _ => nothing
  | entry _ _ items _, index => items index

/-- What is read after the state that was entered last. -/
def next : Readings → Readings
  | nothing => nothing
  | entry _ _ _ next => next

@[simp] theorem items_entry (clock named : Nat) (items : Nat → Readings) (next : Readings) :
    (entry clock named items next).items = items := rfl

@[simp] theorem next_entry (clock named : Nat) (items : Nat → Readings) (next : Readings) :
    (entry clock named items next).next = next := rfl

end Readings

/-- What a run tells at its own level, and what it ends with. -/
abbrev Course := List Event × Except Fault Json

/-- A course that follows after some events. -/
def Course.after (told : List Event) (course : Course) : Course := (told ++ course.1, course.2)

@[simp] theorem Course.map_after_nil (course? : Option Course) :
    course?.map (Course.after []) = course? := by
  cases course? <;> rfl

theorem Course.map_after_append (told more : List Event) (course? : Option Course) :
    (course?.map (Course.after more)).map (Course.after told) =
      course?.map (Course.after (told ++ more)) := by
  cases course? with
  | none => rfl
  | some course => simp [Course.after]

/-- How a run goes on from a state that has come to something; where it goes on with another state,
it does so in a given way. -/
def depart? (item? : Option Nat) (name : String) (rest? : String → Json → Option Course) :
    Except Fault Departure → Option Course
  | .error fault => some ([], .error fault)
  | .ok departure =>
    let exited := Event.stateExited name departure.payload item?
    match departure.successor? with
    | some next => (rest? next departure.payload).map (.after [exited])
    | none => some ([exited], .ok departure.payload)

/-! ## What the work of a state comes to -/

/-- A registry with one token. -/
def Tokens.single (token : String) (ticket : Ticket) : Tokens := ⟨[(token, ticket)], []⟩

/-- What a callback task makes of the reports for its token: the first of them decides. -/
def reportedResult? (name token : String) (reported : List Settlement) :
    Option (Except Fault Json) :=
  awaitedResult? name token (Ticket.fresh.settledAll reported).reception

/-- What the function of a task comes to, by itself and by the reports for the token of the task,
some of which have been made before.  Of a function that cancels its execution nothing is said. -/
def Behaviour.verdict? (name : String) (token? : Option String) :
    (reported : List Settlement) → Behaviour → Option (Except Fault Json)
  | _, answer (.error message) => some (.error (taskFault name message))
  | reported, answer (.ok output) =>
    match token? with
    | none => some (.ok output)
    | some token => reportedResult? name token reported
  | reported, pause _ rest => rest.verdict? name token? reported
  | reported, settle token settlements rest =>
    match ((Tokens.single token (Ticket.fresh.settledAll reported)).settleAll token
      settlements).2 with
    | .ok () => rest.verdict? name token? (reported ++ settlements)
    | .error fault => some (.error (taskFault name fault.message))
  | reported, settleLater _ _ settlements rest =>
    rest.verdict? name token? (reported ++ settlements)
  | _, cancel _ | _, hang | _, panic _ => none

/-- What a task comes to whose function has come some of the way. -/
def Progress.verdict? (name : String) (token? : Option String) (reported : List Settlement) :
    Progress → Option (Except Fault Json)
  | acting b | paused _ b => b.verdict? name token? reported
  | awaiting => token?.bind fun token => reportedResult? name token reported

/-- What the work of a Task state comes to. -/
def TaskWork.verdict? (work : TaskWork) (name : String) (input : Json)
    (reported : List Settlement) : Option (Except Fault Departure) :=
  (work.progress.verdict? name work.token? reported).map fun result =>
    result.bind (work.task.outcome input)

/-- What items come to in order: their outputs, after those of earlier ones, or the first failure.
An item after the first that has no result does not matter. -/
def gather (delivered : List Json) :
    List (Nat × Option (Except Fault Json)) → Option (Except (Nat × Fault) (List Json))
  | [] => some (.ok delivered)
  | (_, some (.ok output)) :: rest => gather (delivered ++ [output]) rest
  | (index, some (.error fault)) :: _ => some (.error (index, fault))
  | (_, none) :: _ => none

/-- What a Map state comes to by what its items come to. -/
def MapFrame.verdict? (frame : MapFrame) (name : String) (input : Json) (delivered : List Json)
    (results : List (Nat × Option (Except Fault Json))) : Option (Except Fault Departure) :=
  (gather delivered results).map fun
    | .ok outputs => frame.settings.outcome input outputs
    | .error (index, fault) => .error (itemFault name index fault)

/-- What the run of an item that has not moved yet comes to, if it goes on in a given way. -/
def Run.freshResult? (course? : String → Json → Option Course) : Run → Option (Except Fault Json)
  | entering name payload => (course? name payload).map (·.2)
  | ended result => some result
  | leaving _ _ | working _ _ _ => none

/-- What items come to that have not been started. -/
def MapFrame.waitingResults (frame : MapFrame)
    (course? : (index : Nat) → Machine → String → Json → Option Course)
    (waiting : List (Nat × Json)) : List (Nat × Option (Except Fault Json)) :=
  waiting.map fun (index, item) =>
    (index, (frame.startItem index item).freshResult? (course? index frame.machine))

theorem MapFrame.waitingResults_congr (frame : MapFrame)
    {course? course?' : (index : Nat) → Machine → String → Json → Option Course}
    {waiting : List (Nat × Json)} (h : ∀ p ∈ waiting, course? p.1 = course?' p.1) :
    frame.waitingResults course? waiting = frame.waitingResults course?' waiting := by
  apply List.map_congr_left
  intro p hp
  dsimp only
  rw [h p hp]

/-- What a Map state comes to whose items go on in given ways. -/
def MapSettings.verdict? (settings : MapSettings) (machine? : Option Machine) (name : String)
    (input context : Json) (course? : (index : Nat) → Machine → String → Json → Option Course) :
    Option (Except Fault Departure) :=
  match machine? with
  | none => some (.error (.invalidDefinition [.unrunnable name]))
  | some machine =>
    match settings.items name input with
    | .error fault => some (.error fault)
    | .ok (effective, items) =>
      let frame : MapFrame := ⟨settings, machine, effective, context⟩
      frame.verdict? name input []
        (frame.waitingResults course? ((List.range items.length).zip items))

/-- What the run of a state that has begun comes to, unless it is a Map state. -/
def Run.verdict? : Run → Option (Except Fault Departure)
  | leaving _ departure => some (.ok departure)
  | ended (.error fault) => some (.error fault)
  | working name input (.task work) => work.verdict? name input []
  | working _ _ (.wait work) => some (work.wait.outcome work.effective)
  | entering _ _ | ended (.ok _) | working _ _ (.map ..) => none

@[simp] theorem Run.verdict?_ofOutcome (name : String) (outcome : Except Fault Departure) :
    (ofOutcome name outcome).verdict? = some outcome := by
  cases outcome <;> rfl

/-- The world at a time, with so many names given out, as far as a state that begins reads it. -/
def World.at (origin : Timestamp) (clock named : Nat) : World :=
  { World.initial origin with clock, named }

/-- What a state comes to that is entered at a time. -/
def State.verdict? (state : State) (scope : Scope) (origin : Timestamp) (clock named : Nat)
    (name : String) (input : Json)
    (course? : (index : Nat) → Machine → String → Json → Option Course) :
    Option (Except Fault Departure) :=
  let s : Situation := ⟨.at origin clock named, false, []⟩
  let context := Context.ofState scope.identity name s.world.now
  match state with
  | .map settings itemProcessor? iterator? =>
    settings.verdict? (processor? itemProcessor? iterator?) name input context course?
  | state => (state.begin scope s name input context).2.verdict?

/-- What a state comes to that is no Map state: what its work comes to once it has begun. -/
theorem State.verdict?_of_ne_map {state : State} (hkind : state.kind ≠ .map) (scope : Scope)
    (origin : Timestamp) (clock named : Nat) (name : String) (input : Json)
    (course? : (index : Nat) → Machine → String → Json → Option Course) :
    state.verdict? scope origin clock named name input course? =
      (state.begin scope ⟨.at origin clock named, false, []⟩ name input
        (Context.ofState scope.identity name (World.at origin clock named).now)).2.verdict? := by
  cases state with
  | map settings itemProcessor? iterator? => exact (hkind rfl).elim
  | _ => rfl

/-! ## Courses -/

/-- **The course of a machine** from a state on, by what it reads. -/
def Readings.course? (scope : Scope) (origin : Timestamp) (item? : Option Nat) :
    Readings → Machine → String → Json → Option Course
  | .nothing, _, _, _ => none
  | .entry clock named items next, m, name, payload =>
    match m.state? name with
    | none => some ([], .error (.stateNotFound name))
    | some state =>
      match scope.services.checkKind state.kind with
      | .error fault => some ([], .error fault)
      | .ok () =>
        let verdict? := state.verdict? scope origin clock named name payload fun index machine =>
          (items index).course? scope origin (some index) machine
        (verdict?.bind (depart? item? name (next.course? scope origin item? m))).map
          (.after [.stateEntered name state.kind payload item?])

namespace Run

mutual

/-- The rest of the course of a run, by the reports for each token that have been made or left for
later, and by what it will read. -/
def course? (scope : Scope) (origin : Timestamp) (reported : String → List Settlement)
    (item? : Option Nat) (m : Machine) (readings : Readings) : Run → Option Course
  | entering name payload => readings.course? scope origin item? m name payload
  | leaving name departure =>
    depart? item? name (readings.course? scope origin item? m) (.ok departure)
  | ended result => some ([], result)
  | working name input work =>
    (workVerdict? scope origin reported readings name input work).bind
      (depart? item? name (readings.next.course? scope origin item? m))

/-- What the work of a state comes to. -/
def workVerdict? (scope : Scope) (origin : Timestamp) (reported : String → List Settlement)
    (readings : Readings) (name : String) (input : Json) : Work → Option (Except Fault Departure)
  | .task work => work.verdict? name input ((work.token?.map reported).getD [])
  | .wait work => some (work.wait.outcome work.effective)
  | .map frame delivered active waiting =>
    frame.verdict? name input delivered
      (activeResults scope origin reported frame.machine readings.items active ++
        frame.waitingResults (fun index => (readings.items index).course? scope origin (some index))
          waiting)

/-- What the items in progress come to. -/
def activeResults (scope : Scope) (origin : Timestamp) (reported : String → List Settlement)
    (machine : Machine) (items : Nat → Readings) :
    List (Nat × Run) → List (Nat × Option (Except Fault Json))
  | [] => []
  | (index, run) :: rest =>
    (index, (run.course? scope origin reported (some index) machine (items index)).map (·.2)) ::
      activeResults scope origin reported machine items rest

end

variable {scope : Scope} {origin : Timestamp} {reported reported' : String → List Settlement}

/-! ### What the course of a run depends on -/

mutual

/-- **The course of a run depends on the reports for its own tokens only.** -/
theorem course?_congr {item? : Option Nat} {m : Machine} {readings : Readings} : (run : Run) →
    (∀ token ∈ run.tokens, reported' token = reported token) →
    run.course? scope origin reported' item? m readings =
      run.course? scope origin reported item? m readings
  | entering _ _, _ => by simp only [course?]
  | leaving _ _, _ => by simp only [course?]
  | ended _, _ => by simp only [course?]
  | working name input work, h => by
    simp only [course?]
    rw [workVerdict?_congr work (by simpa only [tokens] using h)]

theorem workVerdict?_congr {readings : Readings} {name : String} {input : Json} : (work : Work) →
    (∀ token ∈ workTokens work, reported' token = reported token) →
    workVerdict? scope origin reported' readings name input work =
      workVerdict? scope origin reported readings name input work
  | .task work, h => by
    simp only [workVerdict?]
    cases htoken : work.token? with
    | none => rfl
    | some token => rw [Option.map_some, Option.map_some, h token (by simp [workTokens, htoken])]
  | .wait _, _ => by simp only [workVerdict?]
  | .map frame delivered active waiting, h => by
    simp only [workVerdict?]
    rw [activeResults_congr active (by simpa only [workTokens] using h) fun _ _ => rfl]

theorem activeResults_congr {machine : Machine} {items items' : Nat → Readings} :
    (active : List (Nat × Run)) →
    (∀ token ∈ activeTokens active, reported' token = reported token) →
    (∀ index ∈ active.map (·.1), items' index = items index) →
    activeResults scope origin reported' machine items' active =
      activeResults scope origin reported machine items active
  | [], _, _ => by simp only [activeResults]
  | (index, run) :: rest, htokens, hitems => by
    simp only [activeResults]
    rw [hitems index (by simp), course?_congr run fun token htoken =>
        htokens token (by simp [activeTokens, htoken]),
      activeResults_congr rest (fun token htoken => htokens token (by simp [activeTokens, htoken]))
        fun index hindex => hitems index (by simp [hindex])]

end

@[simp] theorem course?_ofOutcome (item? : Option Nat) (m : Machine) (readings : Readings)
    (name : String) (outcome : Except Fault Departure) :
    (ofOutcome name outcome).course? scope origin reported item? m readings =
      depart? item? name (readings.course? scope origin item? m) outcome := by
  cases outcome with
  | ok departure => simp only [ofOutcome, course?]
  | error fault => simp only [ofOutcome, course?, depart?]

theorem activeResults_append (machine : Machine) (items : Nat → Readings)
    (active rest : List (Nat × Run)) :
    activeResults scope origin reported machine items (active ++ rest) =
      activeResults scope origin reported machine items active ++
        activeResults scope origin reported machine items rest := by
  induction active with
  | nil => simp [activeResults]
  | cons p active ih => simp [activeResults, ih]

end Run

/-! ## Map states -/

namespace MapFrame

variable {scope : Scope} {origin : Timestamp} {reported : String → List Settlement}

/-- An item that has just been started comes to what it would have come to. -/
theorem course?_startItem (frame : MapFrame) (index : Nat) (item : Json) (item? : Option Nat)
    (readings : Readings) :
    ((frame.startItem index item).course? scope origin reported item? frame.machine
      readings).map (·.2) =
      (frame.startItem index item).freshResult? (readings.course? scope origin item?
        frame.machine) := by
  unfold startItem
  split
  · simp only [Run.start, Run.course?, Run.freshResult?]
  · split
    · simp only [Run.start, Run.course?, Run.freshResult?]
    · simp only [Run.course?, Run.freshResult?, Option.map_some]

theorem activeResults_startItems (frame : MapFrame) (items : Nat → Readings)
    (waiting : List (Nat × Json)) :
    Run.activeResults scope origin reported frame.machine items (frame.startItems waiting) =
      frame.waitingResults (fun index => (items index).course? scope origin (some index))
        waiting := by
  induction waiting with
  | nil => simp [startItems, Run.activeResults, waitingResults]
  | cons p waiting ih =>
    obtain ⟨index, item⟩ := p
    simp only [startItems, List.map_cons, Run.activeResults, waitingResults] at ih ⊢
    rw [ih, course?_startItem]

/-- **Handing items over does not change what they come to.** -/
theorem gather_handOver (frame : MapFrame) (items : Nat → Readings) {delivered : List Json}
    {active : List (Nat × Run)} {waiting : List (Nat × Json)}
    (hwaiting : active = [] → waiting = []) :
    gather delivered (Run.activeResults scope origin reported frame.machine items active ++
      frame.waitingResults (fun index => (items index).course? scope origin (some index))
        waiting) =
    match frame.handOver delivered active waiting with
    | .going delivered active waiting =>
      gather delivered (Run.activeResults scope origin reported frame.machine items active ++
        frame.waitingResults (fun index => (items index).course? scope origin (some index))
          waiting)
    | .complete outputs => some (.ok outputs)
    | .failed index fault _ => some (.error (index, fault)) := by
  fun_induction frame.handOver delivered active waiting with
  | case1 delivered waiting =>
    rw [hwaiting rfl]
    rfl
  | case2 delivered index output active ih =>
    rw [← ih fun _ => rfl]
    simp only [Run.activeResults, Run.course?, Option.map_some, List.cons_append, gather]
  | case3 delivered index' output active index item waiting ih =>
    rw [← ih (by simp)]
    simp only [Run.activeResults, Run.course?, Option.map_some, List.cons_append, gather,
      Run.activeResults_append, waitingResults, List.map_cons, List.append_assoc, List.nil_append,
      course?_startItem]
  | case4 delivered index fault active waiting =>
    simp only [Run.activeResults, Run.course?, Option.map_some, List.cons_append, gather]
  | case5 => rfl

/-- A Map state that is settled comes to what it would have come to. -/
theorem course?_settle (frame : MapFrame) (s : Situation) (name : String) (input : Json)
    (item? : Option Nat) (m : Machine) {delivered : List Json} {active : List (Nat × Run)}
    {waiting : List (Nat × Json)} (hwaiting : active = [] → waiting = []) (later : Readings) :
    ∃ (items : Nat → Readings) (next : Readings),
      (frame.verdict? name input delivered
        (Run.activeResults scope origin reported frame.machine items active ++
          frame.waitingResults (fun index => (items index).course? scope origin (some index))
            waiting)).bind (depart? item? name (next.course? scope origin item? m)) =
      (frame.settle s name input delivered active waiting).2.course? scope origin reported item? m
        later := by
  have hgather := fun items : Nat → Readings =>
    @gather_handOver scope origin reported frame items delivered active waiting hwaiting
  unfold settle verdict?
  split
  · next delivered' active' waiting' heq =>
    refine ⟨later.items, later.next, ?_⟩
    rw [hgather, heq]
    simp only [Run.course?, Run.workVerdict?, verdict?]
  · next outputs heq =>
    refine ⟨fun _ => .nothing, later, ?_⟩
    rw [hgather, heq]
    simp only [Option.map_some, Option.bind_some, Run.course?_ofOutcome]
  · next index fault dropped heq =>
    refine ⟨fun _ => .nothing, later, ?_⟩
    rw [hgather, heq]
    simp only [Option.map_some, Option.bind_some, depart?, Run.course?]

end MapFrame

end StateFlow
