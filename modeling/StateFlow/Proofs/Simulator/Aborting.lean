import StateFlow.Proofs.Simulator.Session

/-!
# Executions that a panic aborts

A function that panics takes its whole execution with it: the execution has a result, and no event
tells of it.  No run ends itself with such a result (`Run.unaborted_moveAt`), and neither does a
time-out.  So where an execution has been aborted, a function of it has panicked in the session
(`Simulator.panics_of_aborted`).

## Main definitions

* `Simulator.Panics`: at some moment of a session a function of an execution panics

## Main results

* `Execution.Change.panics`: a change that aborts an execution is the panic of a function of it
* `Simulator.panics_of_aborted`, `Simulator.panics_of_start`: an execution that was aborted has
  panicked in the session
-/

namespace StateFlow

/-- **A change that aborts an execution is a panic.** -/
theorem Execution.Change.panics {e e' : Execution} {services : Services} {w : World}
    {leaf? : Option (Run.LeafMove × List Nat)} {report : String}
    (h : e.Change services w leaf? e')
    (hresult : e'.result? = some (.error (.executionAborted report))) :
    e.result? = some (.error (.executionAborted report)) ∨ e.Panics report := by
  cases h with
  | same => exact .inl hresult
  | started hstart =>
    obtain ⟨-, started, rfl⟩ := start?_eq_some hstart
    cases hresult
  | moved hmove =>
    obtain ⟨run, deadline?, s, run', -, hmoved, -, rfl⟩ := moveAt?_eq_some hmove
    rcases withRun_cases (e.inSituation s) deadline? run' with ⟨result, rfl, heq⟩ | ⟨-, heq⟩
    · rw [heq] at hresult
      obtain rfl : result = .error (.executionAborted report) := Option.some.inj hresult
      cases Run.unaborted_moveAt hmoved
    · rw [heq] at hresult
      cases hresult
  | aborted habort =>
    obtain ⟨report', hpanics, hresult'⟩ := panics_of_abort? habort
    obtain rfl : report = report' := by simpa [hresult] using hresult'
    exact .inr hpanics
  | expired hexpire =>
    obtain ⟨_, _, -, -, rfl⟩ := expire?_eq_some hexpire
    cases hresult
  | cancelled => exact .inl hresult

namespace Simulator

variable {origin sim : Simulator} {rs : List Request} {place : Nat} {e : Execution}
  {report : String}

/-- At some moment of a session a function of the execution at a place panics. -/
def Panics (origin : Simulator) (rs : List Request) (place : Nat) (report : String) : Prop :=
  ∃ before sim e, before <+: rs ∧ origin.after? before = some sim ∧
    sim.engine.executions[place]? = some e ∧ e.Panics report

theorem Panics.mono {rs' : List Request} (h : Panics origin rs place report) (hrs : rs <+: rs') :
    Panics origin rs' place report := by
  obtain ⟨before, sim, e, hbefore, h⟩ := h
  exact ⟨before, sim, e, hbefore.trans hrs, h⟩

/-- **An execution that was aborted in a session has panicked in it.** -/
theorem panics_of_aborted (h : origin.after? rs = some sim)
    (hnone : ∀ e, origin.engine.executions[place]? = some e → e.result? = none)
    (he : sim.engine.executions[place]? = some e)
    (hresult : e.result? = some (.error (.executionAborted report))) :
    Panics origin rs place report := by
  refine session_induction (P := fun rs s => ∀ e, s.engine.executions[place]? = some e →
    e.result? = some (.error (.executionAborted report)) → Panics origin rs place report)
    (fun e he hresult => ?_) (fun rs s r s' hs ih hr e he hresult => ?_) rs h e he hresult
  · rw [hnone e he] at hresult
    cases hresult
  · rcases serve?_execution hr he with ⟨e₀, he₀, hchange⟩ | ⟨_, _, _, _, _, _, rfl⟩
    · rcases hchange.panics hresult with hbefore | hpanics
      · exact (ih e₀ he₀ hbefore).mono (List.prefix_append rs [r])
      · exact ⟨rs, s, e₀, List.prefix_append rs [r], hs, he₀, hpanics⟩
    · cases hresult

/-- An execution that was started, and aborted in the session from then on, has panicked in it. -/
theorem panics_of_start {before : Simulator} {name : String} {input : Json}
    (hstart : before.start name input = .ok (origin, place)) (h : origin.after? rs = some sim)
    (he : sim.engine.executions[place]? = some e)
    (hresult : e.result? = some (.error (.executionAborted report))) :
    Panics origin rs place report := by
  obtain ⟨machine, -, executionName, hcreated⟩ := start_eq_ok hstart
  refine panics_of_aborted h (fun e₀ he₀ => ?_) he hresult
  rw [Option.some.inj (he₀.symm.trans hcreated)]
  rfl

/-! ### A task that panics -/

/-- A machine with one task. -/
def calling : Machine where
  comment? := none
  startAt := "A"
  states := [("A", .task ⟨none, "f", .absent, none, .absent, .absent, none, ⟨none, true⟩⟩)]
  timeout? := none

/-- Services whose one function does the same at every call. -/
def behaving (behaviour : Behaviour) : Services :=
  .standard (Bindings.none.insert "m" "A" ⟨"f", "main"⟩) fun _ => some fun _ _ _ => behaviour

/-- An execution of one task is started, and its function called. -/
def calledOnce : List Request :=
  [.register "m" calling, .start "m" .null, .move (.start 0), .move (.leaf 0 .step [])]

end Simulator

end StateFlow
