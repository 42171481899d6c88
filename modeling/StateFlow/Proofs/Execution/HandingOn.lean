import StateFlow.Execution.Run

/-!
# Handing on a result

A Task state and a Map state that have their result go on in one way.  The result is merged into the
input of the state where `ResultPath` says, of the merged document `OutputPath` selects what is
handed on, and the state departs for its successor or for the end.  Where a path cannot be followed
the run ends with that fault.

## Main definitions

* `Run.HandsOn`: the runs that a state with a result goes on with

## Main results

* `Run.handsOn_iff`: a result is handed on in one way only
* `TaskState.handsOn_outcome`, `MapSettings.handsOn_outcome`: Task and Map states hand on
-/

namespace StateFlow

/-- The run that a state goes on with when it has its result. -/
inductive Run.HandsOn (result output : PathField) (transition : Transition) (state : String)
    (input value : Json) : Run → Prop
  | departs {merged payload : Json} (hmerged : result.merge input value = .ok merged)
      (hpayload : output.project merged = .ok payload) :
      HandsOn result output transition state input value
        (.leaving state ⟨transition.next?, transition.ends || transition.next?.isNone, payload⟩)
  | unmerged {fault : Fault} (h : result.merge input value = .error fault) :
      HandsOn result output transition state input value (.ended (.error fault))
  | unprojected {merged : Json} {fault : Fault} (hmerged : result.merge input value = .ok merged)
      (h : output.project merged = .error fault) :
      HandsOn result output transition state input value (.ended (.error fault))

variable {result output : PathField} {transition : Transition} {state : String}
  {input value : Json}

/-- **A result is handed on in one way**, by what comes of merging and projecting it. -/
theorem Run.handsOn_iff {run : Run} : HandsOn result output transition state input value run ↔
    run = .ofOutcome state do
      let merged ← result.merge input value
      return .ofTransition transition (← output.project merged) := by
  constructor
  · intro h
    cases h with
    | departs hmerged hpayload => simp only [bind, Except.bind, hmerged, hpayload]; rfl
    | unmerged h => simp only [bind, Except.bind, h]; rfl
    | unprojected hmerged h => simp only [bind, Except.bind, hmerged, h]; rfl
  · rintro rfl
    cases hmerged : result.merge input value with
    | error fault => exact .unmerged hmerged
    | ok merged =>
      cases hpayload : output.project merged with
      | error fault =>
        simp only [bind, Except.bind, hpayload]
        exact .unprojected hmerged hpayload
      | ok payload =>
        simp only [bind, Except.bind, hpayload]
        exact .departs hmerged hpayload

theorem Run.HandsOn.eq {run run' : Run}
    (h : HandsOn result output transition state input value run)
    (h' : HandsOn result output transition state input value run') : run = run' :=
  (handsOn_iff.mp h).trans (handsOn_iff.mp h').symm

/-- A Task state hands on the result of its function, with null counted as empty. -/
theorem TaskState.handsOn_outcome (task : TaskState) (state : String) (input result : Json) :
    Run.HandsOn task.result task.output task.transition state input
      (if result.isNull then .object [] else result)
      (.ofOutcome state (task.outcome input result)) :=
  Run.handsOn_iff.mpr rfl

/-- A Map state hands on the array of the outputs of its items. -/
theorem MapSettings.handsOn_outcome (settings : MapSettings) (state : String) (input : Json)
    (outputs : List Json) :
    Run.HandsOn settings.result settings.output settings.transition state input (.array outputs)
      (.ofOutcome state (settings.outcome input outputs)) :=
  Run.handsOn_iff.mpr rfl

end StateFlow
