import StateFlow.Proofs.Execution.Foresight
import StateFlow.Proofs.Machine.Names
import StateFlow.Proofs.Machine.PayloadOnly

/-!
# Courses that do not depend on the context

The context object holds what tells one run of a machine from another: the identity of the
execution, the names and the times.  It comes into the payload by expressions only, and into what a
function does by the call.  So where no expression reads it, no task is called back and no function
looks at it, all courses of a machine with an input are the same, whatever is read on the way
(`Readings.course?_unique`).

## Main definitions

* `Services.Blind`: functions that look at the input of a call only

## Main results

* `State.begin_verdict?_congr`: what a state comes to that is no Map state
* `MapSettings.verdict?_unique`: what a Map state comes to
* `Readings.course?_unique`: a machine has one course
-/

namespace StateFlow

/-! ## Functions that look at their input only -/

/-- Functions that look at the input of a call only, and report for no token. -/
structure Services.Blind (services : Services) : Prop where
  unseeing : ∀ binding handler, services.invoker binding = some handler →
    ∀ earlier earlier' input context context',
      handler earlier' input context' = handler earlier input context
  silent : ∀ binding handler, services.invoker binding = some handler →
    ∀ earlier input context, (handler earlier input context).Silent

/-- A function that makes no reports makes none but for its own token. -/
theorem Behaviour.Silent.reportsFor {b : Behaviour} (h : b.Silent) (token? : Option String) :
    b.ReportsFor token? := by
  induction b with
  | answer outcome => trivial
  | hang | panic => trivial
  | pause milliseconds rest ih => exact ih h
  | cancel rest ih => exact ih h
  | settle token settlements rest => exact h.elim
  | settleLater milliseconds token settlements rest => exact h.elim

namespace Services.Blind

variable {services : Services}

theorem steady (h : services.Blind) : services.Steady := by
  constructor
  · intro binding handler hhandler earlier earlier' input context
    exact h.unseeing binding handler hhandler earlier' earlier input context context
  · intro binding handler hhandler earlier input context
    exact (h.silent binding handler hhandler earlier input context).reportsFor _

theorem sequenced (h : services.Blind) : services.Sequenced := by
  intro binding handler hhandler earlier input context
  exact (h.silent binding handler hhandler earlier input context).sequenced

end Services.Blind

/-! ## Machines inside a machine -/

namespace Machine

variable {m inner : Machine} {name : String} {settings : MapSettings}
  {itemProcessor? iterator? : Option Machine}

theorem Uncalled.inside (h : m.Uncalled)
    (hs : m.state? name = some (.map settings itemProcessor? iterator?))
    (hp : processor? itemProcessor? iterator? = some inner) : inner.Uncalled := by
  have hlevel : m.HasLevel inner := HasLevel.self.inside (Entries.mem_of_get? hs) hp
  intro p hmem
  exact h p (hlevel.tasks_subset hmem)

theorem Uncalled.of_task (h : m.Uncalled) {task : TaskState}
    (hs : m.state? name = some (.task task)) : task.isCallback = false :=
  h (name, task) (HasLevel.self.task_mem hs)

theorem PayloadOnly.inside (h : m.PayloadOnly)
    (hs : m.state? name = some (.map settings itemProcessor? iterator?))
    (hp : processor? itemProcessor? iterator? = some inner) : inner.PayloadOnly := by
  have hlevel : m.HasLevel inner := HasLevel.self.inside (Entries.mem_of_get? hs) hp
  intro level hinner
  exact h level (hlevel.trans hinner)

theorem PayloadOnly.of_state (h : m.PayloadOnly) {state : State}
    (hs : m.state? name = some state) : state.PayloadOnly :=
  h m .self (name, state) (Entries.mem_of_get? hs)

end Machine

/-! ## What a state comes to -/

section

variable {services : Services} {identity identity' : Identity} {s s' : Situation} {name : String}
  {input context context' : Json}

theorem callFunction_congr (hservices : services.Blind) (binding : Binding) :
    (callFunction ⟨services, identity'⟩ s' binding input context').2 =
      (callFunction ⟨services, identity⟩ s binding input context).2 := by
  unfold callFunction
  dsimp only
  split
  · rfl
  · next handler hhandler =>
    dsimp only
    rw [hservices.unseeing binding handler hhandler (s.world.callsOf binding)
      (s'.world.callsOf binding) input context context']

/-- What a task comes to that is not called back. -/
theorem TaskState.begin_verdict?_congr {task : TaskState} (hservices : services.Blind)
    (hname : identity'.machineName = identity.machineName) (hcallback : task.isCallback = false)
    (htask : (State.task task).PayloadOnly) :
    (task.begin ⟨services, identity'⟩ s' name input context').2.verdict? =
      (task.begin ⟨services, identity⟩ s name input context).2.verdict? := by
  unfold begin
  cases task.input.project input with
  | error fault => rfl
  | ok effective =>
    dsimp only
    rw [hname]
    cases services.bindings.lookup? identity.machineName name with
    | none => rfl
    | some binding =>
      dsimp only
      rw [hcallback]
      simp only [Bool.false_eq_true, if_false]
      unfold beginPlain
      rw [Template.effectiveInput_congr effective context context' htask]
      cases Template.effectiveInput effective context task.parameters? with
      | error fault => rfl
      | ok argument =>
        have hcall := @callFunction_congr services identity identity' s s' argument context
          context' hservices binding
        simp only [Run.verdict?, TaskWork.verdict?, hcall]

/-- Whether a delay is refused, and why, does not depend on the time. -/
theorem WaitState.nanoseconds_congr (wait : WaitState) (name : String) (effective : Json)
    (now now' : Timestamp) : (wait.nanoseconds name effective now').map (fun _ => ()) =
      (wait.nanoseconds name effective now).map fun _ => () := by
  have huntil : ∀ text,
      ((Delay.untilText now' text).mapError (Fault.invalidDelay name)).map (fun _ => ()) =
        ((Delay.untilText now text).mapError (Fault.invalidDelay name)).map fun _ => () := by
    intro text
    unfold Delay.untilText
    split <;> rfl
  unfold nanoseconds
  split
  · next delay _ =>
    cases delay with
    | seconds count => rfl
    | secondsPath expression => rfl
    | timestamp text => exact huntil text
    -- the text of the timestamp may be missing, or be no text
    | timestampPath expression =>
      simp only [Delay.nanoseconds]
      cases resolvePayload effective expression with
      | error fault => rfl
      | ok value =>
        cases value with
        | string text => exact huntil text
        | _ => rfl
  · rfl

/-- What a Wait state comes to is settled when it begins. -/
theorem WaitState.begin_verdict? (wait : WaitState) (scope : Scope) (s : Situation) (name : String)
    (input : Json) : (wait.begin scope s name input).2.verdict? =
      match wait.input.project input with
      | .error fault => some (.error fault)
      | .ok effective =>
        match (wait.nanoseconds name effective s.world.now).map fun _ => () with
        | .error fault => some (.error fault)
        | .ok _ => some (wait.outcome effective) := by
  unfold begin
  cases wait.input.project input with
  | error fault => rfl
  | ok effective =>
    simp only [bind, Except.bind, pure, Except.pure]
    cases wait.nanoseconds name effective s.world.now with
    | error fault => rfl
    | ok nanoseconds => rfl

theorem WaitState.begin_verdict?_congr (wait : WaitState) (scope scope' : Scope) :
    (wait.begin scope' s' name input).2.verdict? = (wait.begin scope s name input).2.verdict? := by
  rw [wait.begin_verdict?, wait.begin_verdict?]
  cases wait.input.project input with
  | error fault => rfl
  | ok effective =>
    dsimp only
    rw [wait.nanoseconds_congr name effective s.world.now s'.world.now]

/-- How the work of a state that is no Map state comes out does not depend on the context. -/
theorem State.begin_verdict?_congr {state : State} (hservices : services.Blind)
    (hname : identity'.machineName = identity.machineName) (hkind : state.kind ≠ .map)
    (hcallback : ∀ task, state = .task task → task.isCallback = false)
    (hstate : state.PayloadOnly) :
    (state.begin ⟨services, identity'⟩ s' name input context').2.verdict? =
      (state.begin ⟨services, identity⟩ s name input context).2.verdict? := by
  cases state with
  | pass p => rfl
  | task task => exact TaskState.begin_verdict?_congr hservices hname (hcallback task rfl) hstate
  | wait wait => exact wait.begin_verdict?_congr _ _
  | choice c =>
    simp only [begin, Run.verdict?_ofOutcome]
    rw [ChoiceState.outcome_congr context context' hstate]
  | fail f => rfl
  | succeed e => rfl
  | map settings itemProcessor? iterator? => exact (hkind rfl).elim
  | parallel p => rfl

end

/-! ## What a Map state comes to -/

section

variable {course? course?' : (index : Nat) → Machine → String → Json → Option Course}

/-- What an item that has not moved yet comes to, where all courses agree. -/
theorem Run.freshResult?_unique {rest? rest?' : String → Json → Option Course}
    (hcourse : ∀ name payload course course', rest? name payload = some course →
      rest?' name payload = some course' → course = course') (run : Run)
    {result result' : Except Fault Json} (h : run.freshResult? rest? = some result)
    (h' : run.freshResult? rest?' = some result') : result = result' := by
  cases run with
  | entering name payload =>
    obtain ⟨course, hrest, rfl⟩ := Option.map_eq_some_iff.mp h
    obtain ⟨course', hrest', rfl⟩ := Option.map_eq_some_iff.mp h'
    rw [hcourse name payload course course' hrest hrest']
  | ended outcome =>
    cases h
    cases h'
    rfl
  | leaving name departure => cases h
  | working name input work => cases h

/-- Items come to the same in order, as far as they come to something at all. -/
theorem MapFrame.gather_unique {frame frame' : MapFrame} (hmachine : frame'.machine = frame.machine)
    (hstart : ∀ index item, frame'.startItem index item = frame.startItem index item)
    (hcourse : ∀ index name payload course course',
      course? index frame.machine name payload = some course →
      course?' index frame.machine name payload = some course' → course = course')
    (waiting : List (Nat × Json)) {delivered : List Json}
    {outcome outcome' : Except (Nat × Fault) (List Json)}
    (h : gather delivered (frame.waitingResults course? waiting) = some outcome)
    (h' : gather delivered (frame'.waitingResults course?' waiting) = some outcome') :
    outcome = outcome' := by
  induction waiting generalizing delivered with
  | nil =>
    cases h
    cases h'
    rfl
  | cons p waiting ih =>
    obtain ⟨index, item⟩ := p
    simp only [waitingResults, List.map_cons, hstart, hmachine] at h h'
    cases hresult : (frame.startItem index item).freshResult? (course? index frame.machine) with
    | none =>
      rw [hresult] at h
      cases h
    | some result =>
      cases hresult' : (frame.startItem index item).freshResult? (course?' index frame.machine) with
      | none =>
        rw [hresult'] at h'
        cases h'
      | some result' =>
        obtain rfl := Run.freshResult?_unique (hcourse index) _ hresult hresult'
        rw [hresult] at h
        rw [hresult'] at h'
        cases result with
        | ok output =>
          simp only [waitingResults, hmachine, hstart] at ih
          exact ih h h'
        | error fault =>
          cases h
          cases h'
          rfl

/-- **A Map state comes to one thing**, where its items do. -/
theorem MapSettings.verdict?_unique {settings : MapSettings} {machine? : Option Machine}
    {name : String} {input context context' : Json}
    (htemplate : ∀ template ∈ settings.template?, Template.PayloadOnly template)
    (hcourse : ∀ machine ∈ machine?, ∀ index name payload course course',
      course? index machine name payload = some course →
      course?' index machine name payload = some course' → course = course')
    {outcome outcome' : Except Fault Departure}
    (h : settings.verdict? machine? name input context course? = some outcome)
    (h' : settings.verdict? machine? name input context' course?' = some outcome') :
    outcome = outcome' := by
  unfold verdict? at h h'
  cases machine? with
  | none =>
    cases h
    cases h'
    rfl
  | some machine =>
    dsimp only at h h'
    cases hitems : settings.items name input with
    | error fault =>
      rw [hitems] at h h'
      cases h
      cases h'
      rfl
    | ok found =>
      obtain ⟨effective, items⟩ := found
      rw [hitems] at h h'
      obtain ⟨gathered, hgather, rfl⟩ := Option.map_eq_some_iff.mp h
      obtain ⟨gathered', hgather', rfl⟩ := Option.map_eq_some_iff.mp h'
      let frame : MapFrame := ⟨settings, machine, effective, context⟩
      let frame' : MapFrame := ⟨settings, machine, effective, context'⟩
      have hstart : ∀ index item, frame'.startItem index item = frame.startItem index item := by
        intro index item
        dsimp only [MapFrame.startItem, frame, frame']
        cases hcase : settings.template? with
        | none => rfl
        | some template =>
          dsimp only
          rw [Template.fill_congr effective _ _ template (htemplate template hcase)]
      have hsame : gathered = gathered' := @MapFrame.gather_unique course? course?' frame frame' rfl
        hstart (hcourse machine rfl) _ [] gathered gathered' hgather hgather'
      rw [hsame]

end

/-! ## The course of a machine -/

section

variable {services : Services} {identity identity' : Identity} {origin origin' : Timestamp}
  {item? : Option Nat} {m : Machine} {name : String}

/-- What a state of a machine comes to, where the courses of the machines inside it agree. -/
theorem State.verdict?_unique {state : State} (hservices : services.Blind)
    (hname : identity'.machineName = identity.machineName) (hm : m.Uncalled)
    (hpayload : m.PayloadOnly) (hs : m.state? name = some state) {clock clock' named named' : Nat}
    {input : Json} {course? course?' : (index : Nat) → Machine → String → Json → Option Course}
    (hcourse : ∀ inner : Machine, inner.Uncalled → inner.PayloadOnly →
      ∀ index name payload course course', course? index inner name payload = some course →
        course?' index inner name payload = some course' → course = course')
    {outcome outcome' : Except Fault Departure}
    (h : state.verdict? ⟨services, identity⟩ origin clock named name input course? = some outcome)
    (h' : state.verdict? ⟨services, identity'⟩ origin' clock' named' name input course?' =
      some outcome') : outcome = outcome' := by
  have hstate := hpayload.of_state hs
  have hplain : state.kind ≠ .map → outcome = outcome' := by
    intro hkind
    rw [State.verdict?_of_ne_map hkind] at h h'
    rw [State.begin_verdict?_congr hservices hname hkind (fun task heq => hm.of_task (heq ▸ hs))
      hstate] at h'
    exact Option.some.inj (h.symm.trans h')
  cases state with
  | map settings itemProcessor? iterator? =>
    refine MapSettings.verdict?_unique hstate (fun inner hinner => ?_) h h'
    exact hcourse inner (hm.inside hs hinner) (hpayload.inside hs hinner)
  | pass p => exact hplain (by rintro ⟨⟩)
  | task task => exact hplain (by rintro ⟨⟩)
  | wait wait => exact hplain (by rintro ⟨⟩)
  | choice c => exact hplain (by rintro ⟨⟩)
  | fail f => exact hplain (by rintro ⟨⟩)
  | succeed e => exact hplain (by rintro ⟨⟩)
  | parallel p => exact hplain (by rintro ⟨⟩)

/-- How a run goes on from a state that has come to something, where it goes on in one way. -/
theorem depart?_unique {rest? rest?' : String → Json → Option Course}
    (hrest : ∀ next payload course course', rest? next payload = some course →
      rest?' next payload = some course' → course = course')
    {outcome : Except Fault Departure} {course course' : Course}
    (h : depart? item? name rest? outcome = some course)
    (h' : depart? item? name rest?' outcome = some course') : course = course' := by
  cases outcome with
  | error fault =>
    cases h
    cases h'
    rfl
  | ok departure =>
    simp only [depart?] at h h'
    cases hnext : departure.successor? with
    | none =>
      rw [hnext] at h h'
      cases h
      cases h'
      rfl
    | some successor =>
      rw [hnext] at h h'
      obtain ⟨later, hlater, rfl⟩ := Option.map_eq_some_iff.mp h
      obtain ⟨later', hlater', rfl⟩ := Option.map_eq_some_iff.mp h'
      rw [hrest successor departure.payload later later' hlater hlater']

/-- **All courses of a machine with an input are the same**, for every execution and whatever is
read on the way. -/
theorem Readings.course?_unique (hservices : services.Blind)
    (hname : identity'.machineName = identity.machineName) (hm : m.Uncalled)
    (hpayload : m.PayloadOnly) {readings readings' : Readings} {payload : Json}
    {course course' : Course}
    (h : readings.course? ⟨services, identity⟩ origin item? m name payload = some course)
    (h' : readings'.course? ⟨services, identity'⟩ origin' item? m name payload = some course') :
    course = course' := by
  induction readings generalizing readings' item? m name payload course course' with
  | nothing => cases h
  | entry clock named items next ihitems ihnext =>
    cases readings' with
    | nothing => cases h'
    | entry clock' named' items' next' =>
      rw [Readings.course?] at h h'
      cases hs : m.state? name with
      | none =>
        rw [hs] at h h'
        cases h
        cases h'
        rfl
      | some state =>
        rw [hs] at h h'
        dsimp only at h h'
        cases hkind : services.checkKind state.kind with
        | error fault =>
          rw [hkind] at h h'
          cases h
          cases h'
          rfl
        | ok _ =>
          rw [hkind] at h h'
          obtain ⟨rest, hrest, rfl⟩ := Option.map_eq_some_iff.mp h
          obtain ⟨rest', hrest', rfl⟩ := Option.map_eq_some_iff.mp h'
          obtain ⟨outcome, houtcome, hdepart⟩ := Option.bind_eq_some_iff.mp hrest
          obtain ⟨outcome', houtcome', hdepart'⟩ := Option.bind_eq_some_iff.mp hrest'
          obtain rfl : outcome = outcome' := by
            refine State.verdict?_unique hservices hname hm hpayload hs ?_ houtcome houtcome'
            intro inner hinner hinner' index name payload course course' hitem hitem'
            exact ihitems index hinner hinner' hitem hitem'
          have hsame : rest = rest' := by
            refine depart?_unique (fun next payload course course' hlater hlater' => ?_) hdepart
              hdepart'
            exact ihnext hm hpayload hlater hlater'
          rw [hsame]

end

end StateFlow
