import StateFlow.DataFlow.ResultPath
import StateFlow.DataFlow.Template
import StateFlow.Execution.Departure
import StateFlow.Proofs.Outcome

/-!
# Faults met in a payload

Expressions, templates and result paths read and write documents whose contents nobody has checked.
The faults that they can meet there are of four kinds (`Fault.OfPayload`), and none of them is a
fault of the definition.

The lemmas `*_failsOnly` say so of each reading function, up to the outcomes of the states that do
no more than that.
-/

namespace StateFlow

/-- The faults met when a payload or the context object is read or written. -/
def Fault.OfPayload : Fault → Prop
  | .pathNotFound _ | .missingField _ | .unsupportedField _ => True
  | .unsupportedPath _ flaw => flaw ≠ .noVariable
  | _ => False

/-! ## Expressions -/

namespace Path

theorem nameOf_failsOnly (piece : List Char) : FailsOnly (· ≠ .noVariable) (nameOf piece) := by
  unfold nameOf
  split
  · exact .error nofun
  · split
    · exact .error nofun
    · exact .ok _

theorem namesOf_failsOnly (pieces : List (List Char)) :
    FailsOnly (· ≠ .noVariable) (namesOf pieces) := by
  induction pieces with
  | nil => exact .ok _
  | cons p ps ih => exact .bind (nameOf_failsOnly p) fun _ => .bind ih fun _ => .ok _

theorem readNames_failsOnly (cs : List Char) : FailsOnly (· ≠ .noVariable) (readNames cs) := by
  unfold readNames
  split
  · exact .ok _
  · exact namesOf_failsOnly _
  · exact .error nofun

/-- No expression lacks its subject: that flaw is one of rules. -/
theorem read_failsOnly (expression : String) : FailsOnly (· ≠ .noVariable) (read expression) := by
  unfold read readChars
  split
  · exact .bind (readNames_failsOnly _) fun _ => .ok _
  · exact .bind (readNames_failsOnly _) fun _ => .ok _
  · exact .error nofun

end Path

theorem readPath_failsOnly (expression : String) :
    FailsOnly Fault.OfPayload (readPath expression) := by
  unfold readPath
  split
  · exact .ok _
  · next flaw h => exact .error (Path.read_failsOnly expression flaw h)

theorem follow_failsOnly (document : Json) (path : Path) (expression : String) :
    FailsOnly Fault.OfPayload (follow document path expression) := by
  unfold follow
  split
  · exact .ok _
  · exact .error trivial

theorem resolve_failsOnly (payload context : Json) (expression : String) :
    FailsOnly Fault.OfPayload (resolve payload context expression) := by
  refine .bind (readPath_failsOnly expression) fun path => ?_
  cases path.root
  · exact follow_failsOnly payload path expression
  · exact follow_failsOnly context path expression

theorem resolvePayload_failsOnly (payload : Json) (expression : String) :
    FailsOnly Fault.OfPayload (resolvePayload payload expression) := by
  refine .bind (readPath_failsOnly expression) fun path => ?_
  split
  · exact .error nofun
  · exact follow_failsOnly payload path expression

namespace PathField

theorem project_failsOnly (document : Json) (field : PathField) :
    FailsOnly Fault.OfPayload (field.project document) := by
  cases field with
  | absent => exact .ok _
  | null => exact .ok _
  | path expression => exact resolvePayload_failsOnly document expression

theorem merge_failsOnly (input result : Json) (field : PathField) :
    FailsOnly Fault.OfPayload (field.merge input result) := by
  cases field with
  | absent => exact .ok _
  | null => exact .ok _
  | path expression =>
    refine .bind (readPath_failsOnly expression) fun target => ?_
    split
    · exact .error nofun
    · exact .ok _

end PathField

/-! ## Templates -/

namespace Template

theorem select_failsOnly (payload context : Json) (key : String) (value : Json) :
    FailsOnly Fault.OfPayload (select payload context key value) := by
  unfold select
  split
  · exact resolve_failsOnly payload context _
  · exact .error nofun

mutual

theorem fill_failsOnly (payload context : Json) :
    (template : Json) → FailsOnly Fault.OfPayload (fill payload context template)
  | .object entries => by
    rw [fill]
    exact .bind (fillEntries_failsOnly payload context entries) fun _ => .ok _
  | .array items => by
    rw [fill]
    exact .bind (fillItems_failsOnly payload context items) fun _ => .ok _
  | .null | .boolean _ | .number _ | .string _ => by simpa [fill] using .ok _

theorem fillItems_failsOnly (payload context : Json) :
    (items : List Json) → FailsOnly Fault.OfPayload (fillItems payload context items)
  | [] => by rw [fillItems]; exact .ok _
  | x :: xs => by
    rw [fillItems]
    exact .bind (fill_failsOnly payload context x) fun _ =>
      .bind (fillItems_failsOnly payload context xs) fun _ => .ok _

theorem fillEntries_failsOnly (payload context : Json) :
    (entries : List (String × Json)) →
      FailsOnly Fault.OfPayload (fillEntries payload context entries)
  | [] => by rw [fillEntries]; exact .ok _
  | (key, template) :: rest => by
    rw [fillEntries]
    have hrest : ∀ value, FailsOnly Fault.OfPayload (do
        return (producedName key, value) :: (← fillEntries payload context rest)) := fun _ =>
      .bind (fillEntries_failsOnly payload context rest) fun _ => .ok _
    cases filledName? key with
    | none => exact .bind (fill_failsOnly payload context template) hrest
    | some _ => exact .bind (select_failsOnly payload context key template) hrest

end

theorem effectiveInput_failsOnly (payload context : Json) (template? : Option Json) :
    FailsOnly Fault.OfPayload (effectiveInput payload context template?) := by
  cases template? with
  | none => exact .ok _
  | some template => exact fill_failsOnly payload context template

theorem fillPayload_failsOnly (payload context : Json) (entries : List (String × Json)) :
    ∀ last, FailsOnly Fault.OfPayload (fillPayload payload context last entries) := by
  induction entries with
  | nil => exact fun last => .ok last
  | cons e rest ih =>
    intro last
    obtain ⟨key, template⟩ := e
    rw [fillPayload]
    split
    · cases filledName? key with
      | none => exact .bind (fill_failsOnly payload context template) ih
      | some _ => exact .bind (select_failsOnly payload context key template) ih
    · exact ih last

theorem ofPayload_of_callbackFault {entries : List (String × Json)} {fault : Fault}
    (h : callbackFault? entries = some fault) : fault.OfPayload := by
  unfold callbackFault? at h
  dsimp only at h
  split at h
  · cases h
    trivial
  · obtain ⟨name, -, rfl⟩ := Option.map_eq_some_iff.mp h
    trivial

theorem callbackPayload_failsOnly (payload context : Json) (template? : Option Json) :
    FailsOnly Fault.OfPayload (callbackPayload payload context template?) := by
  unfold callbackPayload
  split
  · split
    · next h => exact .error (ofPayload_of_callbackFault h)
    · exact fillPayload_failsOnly payload context _ _
  · exact .error trivial

end Template

/-! ## Departures -/

theorem PassState.outcome_failsOnly (s : PassState) (input : Json) :
    FailsOnly Fault.OfPayload (s.outcome input) :=
  .bind (s.input.project_failsOnly input) fun effective =>
    .bind (s.result.merge_failsOnly input effective) fun merged =>
      .bind (s.output.project_failsOnly merged) fun _ => .ok _

theorem SucceedState.outcome_failsOnly (s : SucceedState) (input : Json) :
    FailsOnly Fault.OfPayload (s.outcome input) :=
  .bind (s.input.project_failsOnly input) fun effective =>
    .bind (s.output.project_failsOnly effective) fun _ => .ok _

theorem TaskState.outcome_failsOnly (s : TaskState) (input result : Json) :
    FailsOnly Fault.OfPayload (s.outcome input result) :=
  .bind (s.result.merge_failsOnly input _) fun merged =>
    .bind (s.output.project_failsOnly merged) fun _ => .ok _

theorem WaitState.outcome_failsOnly (s : WaitState) (effective : Json) :
    FailsOnly Fault.OfPayload (s.outcome effective) :=
  .bind (s.output.project_failsOnly effective) fun _ => .ok _

theorem MapSettings.outcome_failsOnly (s : MapSettings) (input : Json) (outputs : List Json) :
    FailsOnly Fault.OfPayload (s.outcome input outputs) :=
  .bind (s.result.merge_failsOnly input _) fun merged =>
    .bind (s.output.project_failsOnly merged) fun _ => .ok _

end StateFlow
