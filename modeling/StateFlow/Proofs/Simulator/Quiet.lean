import StateFlow.Proofs.Execution.Calls
import StateFlow.Proofs.Execution.Cancellation
import StateFlow.Proofs.Simulator.Session

/-!
# What a cancelled execution does no more

Every frame of an execution, whether of the machine itself or of an item at any depth, looks at the
same cancellation before it enters a state and before it leaves one.  So from the moment at which an
execution is cancelled no state of it is entered or left, none of its states calls a function, and
it does not succeed, in whatever order its items and everything else go on
(`Simulator.quiet_of_cancelled`).  How such an execution does end is the matter of
`StateFlow.Proofs.Simulator.Cancellation`.

## Main definitions

* `Event.isProgress`: the events that a cancelled execution tells no more
* `Execution.Stopping`: a cancelled execution that has not succeeded

## Main results

* `Run.moveLeaf_keeps_of_cancelled`, `Run.moveAt_ne_ok_of_cancelled`: a move in a cancelled run
* `Execution.Stopping.change`: a change of a cancelled execution
* `Simulator.quiet_of_cancelled`: what a session leaves of it
-/

namespace StateFlow

/-! ## Events -/

namespace Event

/-- True of the events that tell of a state entered or left, or of success. -/
def isProgress : Event → Bool
  | stateEntered .. | stateExited .. | executionSucceeded _ => true
  | executionStarted .. | executionFailed .. | executionCancelled => false

theorem isProgress_ending_error (fault : Fault) : (ending (.error fault)).isProgress = false := by
  cases fault <;> rfl

end Event

/-! ## Runs -/

theorem MapFrame.settle_ne_ok (frame : MapFrame) (s : Situation) (state : String) (input : Json)
    (delivered : List Json) (active : List (Nat × Run)) (waiting : List (Nat × Json))
    (output : Json) :
    (frame.settle s state input delivered active waiting).2.result? ≠ some (.ok output) := by
  unfold settle
  split
  · exact nofun
  · next outputs _ =>
    -- a Map state that is complete has still to be left
    cases frame.settings.outcome input outputs with
    | ok departure => exact nofun
    | error fault => exact nofun
  · exact nofun

namespace Run

variable {scope : Scope} {move : LeafMove} {m : Machine} {item? : Option Nat} {s s' : Situation}
  {run run' : Run} {address : List Nat}

/-- A leaf of a cancelled execution tells nothing and calls nothing. -/
theorem moveLeaf_keeps_of_cancelled (hs : s.cancelled = true)
    (hmove : moveLeaf scope move m item? s run = some (s', run')) : s.Keeps s' := by
  have hmoves := moves_of_moveLeaf hmove
  cases run with
  | entering name input =>
    cases hmoves with
    | entering h =>
      obtain ⟨rfl, -⟩ := h.of_cancelled hs
      exact .refl _
  | leaving name departure =>
    cases hmoves with
    | leaving h =>
      obtain ⟨rfl, -⟩ := h.of_cancelled hs
      exact .refl _
  | working name input work => exact hmoves.keeps
  | ended result => cases hmoves

theorem moveAt_keeps_of_cancelled (hs : s.cancelled = true)
    (hmove : moveAt scope move m item? s address run = some (s', run')) : s.Keeps s' := by
  obtain ⟨leaf, s₁, new, -, hleaf, tokens, rfl⟩ := moveAt_leaf hmove
  have hkeeps := moveLeaf_keeps_of_cancelled hs hleaf
  exact hkeeps.trans (.release s₁ tokens)

/-- A run of a cancelled execution does not succeed. -/
theorem moveAt_ne_ok_of_cancelled (hs : s.cancelled = true)
    (hmove : moveAt scope move m item? s address run = some (s', run')) (output : Json) :
    run'.result? ≠ some (.ok output) := by
  cases address with
  | nil =>
    rcases (moveLeaf_cancelled hs hmove).2 with ⟨hleaf, -⟩ | ⟨fault, rfl, -⟩
    · rw [result?_of_isLeaf hleaf]
      exact nofun
    · exact nofun
  | cons index address =>
    obtain ⟨name, input, frame, delivered, active, waiting, old, s₁, new, -, -, -, hsettle⟩ :=
      moveAt_cons hmove
    obtain rfl : _ = run' := congrArg Prod.snd hsettle
    exact frame.settle_ne_ok s₁ name input delivered _ waiting output

end Run

/-! ## Executions -/

namespace Execution

variable {e e' : Execution} {services : Services} {w w' : World}
  {leaf? : Option (Run.LeafMove × List Nat)}

/-- A cancelled execution that has not succeeded. -/
structure Stopping (e : Execution) : Prop where
  cancelled : e.cancelled = true
  unsuccessful : ∀ output, e.result? ≠ some (.ok output)

/-- From one execution to the other nothing was told of progress. -/
def QuietTo (e e' : Execution) : Prop :=
  ∃ told, e'.events = e.events ++ told ∧ ∀ event ∈ told, event.isProgress = false

theorem QuietTo.refl (e : Execution) : e.QuietTo e := ⟨[], by simp, by simp⟩

theorem QuietTo.trans {e'' : Execution} (h : e.QuietTo e') (h' : e'.QuietTo e'') :
    e.QuietTo e'' := by
  obtain ⟨told, hevents, htold⟩ := h
  obtain ⟨told', hevents', htold'⟩ := h'
  refine ⟨told ++ told', by rw [hevents', hevents, List.append_assoc], ?_⟩
  intro event hevent
  rcases List.mem_append.mp hevent with hmem | hmem
  · exact htold event hmem
  · exact htold' event hmem

theorem quietTo_finish_error (e : Execution) (fault : Fault) :
    e.QuietTo (e.finish (.error fault)) := by
  refine ⟨[.ending (.error fault)], rfl, ?_⟩
  intro event hevent
  rw [List.mem_singleton.mp hevent]
  exact Event.isProgress_ending_error fault

/-- A move in a cancelled execution calls nothing, tells of no progress and does not succeed. -/
theorem Stopping.moveAt? (he : e.Stopping) {move : Run.LeafMove} {address : List Nat}
    (hmove : e.moveAt? services w move address = some (w', e')) :
    e'.Stopping ∧ e.QuietTo e' ∧ w'.calls = w.calls := by
  obtain ⟨run, deadline?, s, run', -, hrun, rfl, rfl⟩ := moveAt?_eq_some hmove
  have hs : (e.situation w).cancelled = true := he.cancelled
  have hkeeps : (e.situation w).Keeps s := Run.moveAt_keeps_of_cancelled hs hrun
  have hcancelled : s.cancelled = true := hkeeps.cancelled hs
  have hevents : (e.inSituation s).events = e.events := hkeeps.events
  have hquiet : e.QuietTo (e.inSituation s) := ⟨[], by simp [hevents], by simp⟩
  rcases withRun_cases (e.inSituation s) deadline? run' with ⟨result, rfl, heq⟩ | ⟨-, heq⟩
  · rw [heq]
    cases result with
    | ok output => exact absurd rfl (Run.moveAt_ne_ok_of_cancelled hs hrun output)
    | error fault =>
      refine ⟨⟨hcancelled, ?_⟩, hquiet.trans (quietTo_finish_error _ fault), hkeeps.calls⟩
      rintro output ⟨⟩
  · rw [heq]
    exact ⟨⟨hcancelled, nofun⟩, hquiet, hkeeps.calls⟩

/-- **A change of a cancelled execution** tells of no progress, and leaves it cancelled and without
success. -/
theorem Stopping.change (he : e.Stopping) (h : e.Change services w leaf? e') :
    e'.Stopping ∧ e.QuietTo e' := by
  cases h with
  | same => exact ⟨he, .refl e⟩
  | started h =>
    have hquiet : e.QuietTo e' := ⟨_, start?_events h, by simp [Event.isProgress]⟩
    obtain ⟨-, started, rfl⟩ := start?_eq_some h
    exact ⟨⟨he.cancelled, nofun⟩, hquiet⟩
  | moved h =>
    obtain ⟨he', hquiet, -⟩ := he.moveAt? h
    exact ⟨he', hquiet⟩
  | aborted h =>
    obtain ⟨run, deadline?, report, -, -, -, rfl⟩ := abort?_eq_some h
    refine ⟨⟨he.cancelled, ?_⟩, .refl e⟩
    rintro output ⟨⟩
  | expired h =>
    obtain ⟨run, deadline, -, -, rfl⟩ := expire?_eq_some h
    refine ⟨⟨he.cancelled, ?_⟩, quietTo_finish_error e _⟩
    rintro output ⟨⟩
  | cancelled => exact ⟨⟨rfl, he.unsuccessful⟩, [], by simp, by simp⟩

end Execution

/-! ## Sessions -/

namespace Simulator

variable {sim sim' : Simulator} {rs : List Request} {r : Request} {place : Nat} {e : Execution}

/-- A request that moves no leaf calls nothing. -/
theorem serve?_calls (h : sim.serve? r = some sim') (hleaf : ∀ place, r.leafAt? place = none) :
    sim'.engine.world.calls = sim.engine.world.calls := by
  rcases serve?_cases h with ⟨rfl, -⟩ | ⟨_, _, -, -, rfl⟩ | ⟨_, _, _, -, -, rfl⟩ |
    ⟨move, engine, rfl, hmove, rfl⟩
  · rfl
  · rfl
  · rfl
  · exact Engine.move_calls hmove hleaf

/-- A request that moves no leaf of another execution calls nothing, if the execution itself has
been cancelled. -/
theorem serve?_calls_of_stopping (h : sim.serve? r = some sim')
    (he : sim.engine.executions[place]? = some e) (hstopping : e.Stopping)
    (hother : ∀ other, other ≠ place → r.leafAt? other = none) :
    sim'.engine.world.calls = sim.engine.world.calls := by
  cases hleaf : r.leafAt? place with
  | none =>
    refine serve?_calls h fun other => ?_
    by_cases hne : other = place
    · rw [hne, hleaf]
    · exact hother other hne
  | some leaf =>
    obtain rfl := Request.leafAt?_eq_some_iff.mp hleaf
    obtain ⟨engine, hmove, rfl⟩ := Option.map_eq_some_iff.mp h
    obtain ⟨e₀, w, e', he₀, hmoved, rfl⟩ := Engine.update?_eq_some hmove
    obtain rfl : e = e₀ := Option.some.inj (he.symm.trans he₀)
    exact (hstopping.moveAt? hmoved).2.2

/-- A cancelled execution goes on as one that stops, and tells of no progress. -/
theorem stopping_after? (he : sim.engine.executions[place]? = some e) (hstopping : e.Stopping)
    (hrs : sim.after? rs = some sim') :
    ∃ e', sim'.engine.executions[place]? = some e' ∧ e'.Stopping ∧ e.QuietTo e' := by
  refine session_induction (P := fun _ s => ∃ e', s.engine.executions[place]? = some e' ∧
    e'.Stopping ∧ e.QuietTo e') ⟨e, he, hstopping, .refl e⟩ ?_ rs hrs
  rintro _ s r s' - ⟨e₁, he₁, hstopping₁, hquiet₁⟩ hr
  obtain ⟨e₂, he₂, hchange⟩ := serve?_execution_of hr he₁
  obtain ⟨hstopping₂, hquiet₂⟩ := hstopping₁.change hchange
  exact ⟨e₂, he₂, hstopping₂, hquiet₁.trans hquiet₂⟩

/-- **A cancelled execution makes no progress.**  From any moment at which an execution that has not
finished is cancelled, and whatever happens afterwards in whatever order, no frame of it, at any
depth, tells that a state was entered or left, it does not succeed, and nothing but a leaf of
another execution calls a function. -/
theorem quiet_of_cancelled (he : sim.engine.executions[place]? = some e)
    (hcancelled : e.cancelled = true) (hresult : e.result? = none)
    (hrs : sim.after? rs = some sim') :
    (∃ e' told, sim'.engine.executions[place]? = some e' ∧ e'.events = e.events ++ told ∧
      (∀ event ∈ told, event.isProgress = false) ∧ ∀ output, e'.result? ≠ some (.ok output)) ∧
    ∀ r sim'', sim'.serve? r = some sim'' → (∀ other, other ≠ place → r.leafAt? other = none) →
      sim''.engine.world.calls = sim'.engine.world.calls := by
  have hstopping : e.Stopping := ⟨hcancelled, by simp [hresult]⟩
  obtain ⟨e', he', hstopping', told, hevents, htold⟩ := stopping_after? he hstopping hrs
  constructor
  · exact ⟨e', told, he', hevents, htold, hstopping'.unsuccessful⟩
  · intro r sim'' hr hother
    exact serve?_calls_of_stopping hr he' hstopping' hother

/-! ### A Map state with two tasks, cancelled while the first is at work -/

/-- A Map state that calls a function for each item. -/
def callingEach : Machine where
  comment? := none
  startAt := "Each"
  states := [("Each", .map ⟨none, none, none, none, 0, .absent, .absent, .absent, ⟨none, true⟩⟩
    (some ⟨none, "Call", [("Call",
      .task ⟨none, "f", .absent, none, .absent, .absent, none, ⟨none, true⟩⟩)], none⟩) none)]
  timeout? := none

/-- Services whose one function answers after ten milliseconds. -/
def pausingServices : Services :=
  .standard (Bindings.none.insert "m" "Call" ⟨"f", "main"⟩) fun _ =>
    some fun _ input _ => .pause 10 (.answer (.ok input))

/-- The execution is cancelled while the first item is at work and the second about to begin. -/
def cancelledItems : List Request :=
  [.register "m" callingEach, .start "m" (.array [.null, .null]), .move (.start 0),
    .move (.leaf 0 .step []), .move (.leaf 0 .step [0]), .move (.leaf 0 .step [0]),
    .move (.cancel 0)]

/-- The second item goes on, then the first wakes up and answers. -/
def goneOn : List Request :=
  [.move (.leaf 0 .step [1]), .move (.wait 10), .move (.leaf 0 .step [0]),
    .move (.leaf 0 .step [0])]

/-- The second task was not called, and the answer of the first was not told. -/
theorem quiet_of_cancelled_items :
    ∃ sim e sim' e', (initial pausingServices default).after? cancelledItems = some sim ∧
      sim.engine.executions[0]? = some e ∧ e.cancelled = true ∧ e.result? = none ∧
      sim.after? goneOn = some sim' ∧ sim'.engine.executions[0]? = some e' ∧
      e.events.length = 3 ∧ e'.events.length = 3 ∧ sim'.engine.world.calls.length = 1 ∧
      (∀ output, e'.result? ≠ some (.ok output)) ∧
      ∃ sim'', sim'.serve? (.move (.leaf 0 .step [0])) = some sim'' ∧
        sim''.engine.world.calls = sim'.engine.world.calls := by
  have hcheck : (((initial pausingServices default).after? cancelledItems).bind fun sim =>
      (sim.engine.executions[0]?).bind fun e => (sim.after? goneOn).bind fun sim' =>
        (sim'.engine.executions[0]?).bind fun e' =>
          (sim'.serve? (.move (.leaf 0 .step [0]))).map fun _ =>
            (e.cancelled, e.result?.isNone, e.events.length, e'.events.length,
              sim'.engine.world.calls.length)) =
      some (true, true, 3, 3, 1) := by decide +kernel
  obtain ⟨sim, hsim, hcheck⟩ := Option.bind_eq_some_iff.mp hcheck
  obtain ⟨e, he, hcheck⟩ := Option.bind_eq_some_iff.mp hcheck
  obtain ⟨sim', hsim', hcheck⟩ := Option.bind_eq_some_iff.mp hcheck
  obtain ⟨e', he', hcheck⟩ := Option.bind_eq_some_iff.mp hcheck
  obtain ⟨sim'', hsim'', hcheck⟩ := Option.map_eq_some_iff.mp hcheck
  simp only [Prod.mk.injEq, Option.isNone_iff_eq_none] at hcheck
  obtain ⟨hcancelled, hresult, hlength, hlength', hcalls⟩ := hcheck
  obtain ⟨⟨e₁, told, he₁, -, -, hunsuccessful⟩, hquiet⟩ :=
    quiet_of_cancelled he hcancelled hresult hsim'
  obtain rfl : e' = e₁ := Option.some.inj (he'.symm.trans he₁)
  have hnone : ∀ other, other ≠ 0 →
      (Request.move (.leaf 0 .step [0])).leafAt? other = none := by
    intro other hne
    exact if_neg (Ne.symm hne)
  exact ⟨sim, e, sim', e', hsim, he, hcancelled, hresult, hsim', he', hlength, hlength', hcalls,
    hunsuccessful, sim'', hsim'', hquiet _ sim'' hsim'' hnone⟩

end Simulator

end StateFlow
