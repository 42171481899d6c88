import StateFlow.Execution.Delay
import StateFlow.Proofs.Choice.Evaluation
import StateFlow.Proofs.Fault.Payload
import StateFlow.Proofs.Machine.Levels

/-!
# Where states lead and what they fail with

A departure that a state works out leads, if anywhere, to a state that its definition names
(`State.Leads`), whatever the payload is.  The faults it can fail with instead are those of the
payload and, for Choice and Wait states, those that the definition itself is to blame for:
`ChoiceState.Fails` and `Fault.OfDelay` name them.

## Main definitions

* `State.Leads`: a departure that leads to a state which the definition names
* `ChoiceState.Fails`: the faults of a Choice state that sees a payload

## Main results

* `Rule.holds_failsOnly`: a rule whose tests name their subjects fails with faults of the payload
* `Rule.firstHolding_spec`: what the search for a rule that holds has found out
* `ChoiceState.outcome_failsOnly`, `WaitState.nanoseconds_failsOnly`: Choice and Wait states
-/

namespace StateFlow

/-! ## Where a state leads -/

/-- A departure leads, if anywhere, to a state that the definition of its state names. -/
def State.Leads (state : State) (d : Departure) : Prop :=
  ∀ next, d.successor? = some next → next ∈ state.targets

theorem Departure.mem_targets_of_successor? {t : Transition} {payload : Json} {next : String}
    (h : (Departure.ofTransition t payload).successor? = some next) : next ∈ t.targets := by
  unfold Departure.successor? Departure.ofTransition at h
  unfold Transition.targets
  cases hends : t.ends <;> cases hnext : t.next? <;> simp_all

theorem PassState.outcome_leads (p : PassState) (input : Json) :
    Yields (State.pass p).Leads (p.outcome input) :=
  .bind fun _ _ => .bind fun _ _ => .bind fun _ _ => .ok fun _ =>
    Departure.mem_targets_of_successor?

theorem SucceedState.outcome_leads (e : SucceedState) (input : Json) :
    Yields (State.succeed e).Leads (e.outcome input) :=
  .bind fun _ _ => .bind fun _ _ => .ok (by simp [State.Leads, Departure.successor?])

theorem TaskState.outcome_leads (t : TaskState) (input result : Json) :
    Yields (State.task t).Leads (t.outcome input result) :=
  .bind fun _ _ => .bind fun _ _ => .ok fun _ => Departure.mem_targets_of_successor?

theorem WaitState.outcome_leads (w : WaitState) (effective : Json) :
    Yields (State.wait w).Leads (w.outcome effective) :=
  .bind fun _ _ => .ok fun _ => Departure.mem_targets_of_successor?

theorem MapSettings.outcome_leads (settings : MapSettings)
    (itemProcessor? iterator? : Option Machine) (input : Json) (outputs : List Json) :
    Yields (State.map settings itemProcessor? iterator?).Leads (settings.outcome input outputs) :=
  .bind fun _ _ => .bind fun _ _ => .ok fun _ => Departure.mem_targets_of_successor?

/-! ## Rules -/

/-- The faults of a rule: those of a payload, and that of a test without a subject. -/
def Fault.OfRule (named : Prop) (fault : Fault) : Prop :=
  fault.OfPayload ∨ ¬ named ∧ ∃ expression, fault = .unsupportedPath expression .noVariable

theorem Fault.OfRule.mono {P Q : Prop} (h : Q → P) {fault : Fault} (hf : fault.OfRule P) :
    fault.OfRule Q :=
  hf.imp_right fun ⟨hn, he⟩ => ⟨fun hq => hn (h hq), he⟩

theorem Test.subject_failsOnly (payload context : Json) (expression : String) (t : Test) :
    FailsOnly Fault.OfPayload (t.subject payload context expression) := by
  have hresolve := resolve_failsOnly payload context expression
  unfold subject
  split
  · split
    · exact .ok _
    · exact .ok _
    · next fault _ h => exact .error (hresolve fault h)
  · exact .bind hresolve fun _ => .ok _

theorem Test.outcome_failsOnly (payload context : Json) (subject : Option Json) (t : Test) :
    FailsOnly Fault.OfPayload (t.outcome payload context subject) := by
  unfold outcome
  split
  · split
    · exact .bind (.ok _) fun _ => .ok _
    · exact .bind (resolve_failsOnly payload context _) fun _ => .ok _
  · split
    · exact .ok _
    · exact .ok _
  · exact .ok _

namespace Rule

variable (payload context : Json)

theorem holds_failsOnly (rule : Rule) :
    FailsOnly (Fault.OfRule rule.NamesSubjects) (rule.holds payload context) := by
  induction rule using Rule.induction with
  | and frame rules ih =>
    rw [holds, NamesSubjects, allNameSubjects_iff]
    exact allHold_failsOnly fun r hr => (ih r hr).mono fun _ => Fault.OfRule.mono (· r hr)
  | or frame rules ih =>
    rw [holds, NamesSubjects, allNameSubjects_iff]
    exact anyHolds_failsOnly fun r hr => (ih r hr).mono fun _ => Fault.OfRule.mono (· r hr)
  | not frame rule ih =>
    rw [holds, NamesSubjects]
    exact .bind ih fun _ => .ok _
  | test frame t =>
    rw [holds, NamesSubjects]
    unfold Test.holds
    split
    · next h => exact .error (.inr ⟨by simp [h], _, rfl⟩)
    · next expression _ =>
      exact .mono (.bind (t.subject_failsOnly payload context expression) fun subject =>
        t.outcome_failsOnly payload context subject) fun _ => .inl

/-- What the search for a rule that holds has found out: that none does, which one does, or which
one cannot be evaluated. -/
theorem firstHolding_spec (rules : List Rule) :
    match firstHolding payload context rules with
    | .ok none => ∀ r ∈ rules, r.holds payload context = .ok false
    | .ok (some r) => r ∈ rules ∧ r.holds payload context = .ok true
    | .error fault => ∃ r ∈ rules, r.holds payload context = .error fault := by
  induction rules with
  | nil => simp [firstHolding]
  | cons r rs ih =>
    rw [firstHolding]
    cases hr : r.holds payload context with
    | error fault => exact ⟨r, List.mem_cons_self, hr⟩
    | ok b =>
      cases b with
      | true => exact ⟨List.mem_cons_self, hr⟩
      | false =>
        simp only [bind, Except.bind, Bool.false_eq_true, if_false]
        split at ih
        · next h => simpa [h, hr] using ih
        · exact ⟨List.mem_cons_of_mem _ ih.1, ih.2⟩
        · obtain ⟨r', hmem, hr'⟩ := ih
          exact ⟨r', List.mem_cons_of_mem _ hmem, hr'⟩

end Rule

/-- The faults of a Choice state that sees a payload. -/
def ChoiceState.Fails (c : ChoiceState) (name : String) (input context : Json) (fault : Fault) :
    Prop :=
  fault.OfPayload ∨
  (∃ rule ∈ c.rules, ¬ rule.NamesSubjects ∧
    ∃ expression, fault = .unsupportedPath expression .noVariable) ∨
  (fault = .noMatchingChoice name ∧ c.default? = none ∧
    ∃ effective, c.input.project input = .ok effective ∧
      ((∀ rule ∈ c.rules, rule.holds effective context = .ok false) ∨
        ∃ rule ∈ c.rules, rule.next? = none))

theorem ChoiceState.outcome_failsOnly (c : ChoiceState) (name : String) (input context : Json) :
    FailsOnly (c.Fails name input context) (c.outcome name input context) := by
  intro fault h
  unfold outcome at h
  cases hi : c.input.project input with
  | error e =>
    rw [hi] at h
    cases h
    exact .inl (c.input.project_failsOnly input fault hi)
  | ok effective =>
    -- either a rule failed, or all were false, or one held
    have hspec := Rule.firstHolding_spec effective context c.rules
    cases hm : Rule.firstHolding effective context c.rules with
    | error e =>
      obtain ⟨r, hr, hre⟩ : ∃ r ∈ c.rules, r.holds effective context = .error e := by
        simpa [hm] using hspec
      simp only [hi, hm, bind, Except.bind, Except.error.injEq] at h
      subst h
      rcases Rule.holds_failsOnly effective context r e hre with he | ⟨hn, he⟩
      · exact .inl he
      · exact .inr (.inl ⟨r, hr, hn, he⟩)
    | ok matched =>
      simp only [hi, hm, bind, Except.bind] at h
      split at h
      · next hnone =>
        cases h
        refine .inr (.inr ⟨rfl, ?_⟩)
        cases matched with
        | none => exact ⟨by simpa using hnone, effective, hi, .inl (by simpa [hm] using hspec)⟩
        | some r =>
          have hspec : r ∈ c.rules ∧ r.holds effective context = .ok true := by
            simpa [hm] using hspec
          cases hr : r.next? with
          | none => exact ⟨by simpa [hr] using hnone, effective, hi, .inr ⟨r, hspec.1, hr⟩⟩
          | some next => simp [hr] at hnone
      · exact .inl ((FailsOnly.bind (c.output.project_failsOnly effective) fun _ => .ok _) fault h)

theorem ChoiceState.outcome_leads (c : ChoiceState) (name : String) (input context : Json) :
    Yields (State.choice c).Leads (c.outcome name input context) := by
  refine .bind fun effective _ => .bind fun matched hm => ?_
  have hspec := Rule.firstHolding_spec effective context c.rules
  rw [hm] at hspec
  split
  · exact .error _
  · next next hnext =>
    refine .bind fun _ _ => .ok fun next' h => ?_
    obtain rfl : next = next' := by simpa [Departure.successor?] using h
    rw [State.targets, List.mem_append]
    cases matched with
    | none => exact .inr (by simpa using hnext)
    | some r =>
      cases hr : r.next? with
      | none => exact .inr (by simpa [hr] using hnext)
      | some n =>
        obtain rfl : n = next := by simpa [hr] using hnext
        exact .inl (List.mem_filterMap.mpr ⟨r, hspec.1, hr⟩)

/-! ## Delays -/

/-- The faults of a delay that sees a payload. -/
def Fault.OfDelay (state : String) (fault : Fault) : Prop :=
  fault.OfPayload ∨ ∃ flaw, fault = .invalidDelay state flaw ∧ ∀ found, flaw ≠ .count found

theorem Delay.ofNumber_failsOnly (expression : String) (value : Json) :
    FailsOnly (fun flaw => ∀ found, flaw ≠ .count found) (ofNumber expression value) := by
  unfold ofNumber
  split
  · exact .error nofun
  · split
    · exact .error nofun
    · dsimp only
      split
      · exact .ok _
      · exact .error nofun

theorem Delay.untilText_failsOnly (now : Timestamp) (text : String) :
    FailsOnly (fun flaw => ∀ found, flaw ≠ .count found) (untilText now text) := by
  unfold untilText
  split
  · exact .ok _
  · exact .error nofun

theorem Delay.nanoseconds_failsOnly (state : String) (effective : Json) (now : Timestamp)
    (d : Delay) : FailsOnly (Fault.OfDelay state) (d.nanoseconds state effective now) := by
  cases d with
  | seconds count => exact .ok _
  | secondsPath expression =>
    have hvalue := resolvePayload_failsOnly effective expression
    refine .bind (hvalue.mono fun _ => .inl) fun value => ?_
    exact .mapError ((ofNumber_failsOnly expression value).mono fun flaw h => .inr ⟨flaw, rfl, h⟩)
  | timestamp text =>
    exact .mapError ((untilText_failsOnly now text).mono fun flaw h => .inr ⟨flaw, rfl, h⟩)
  | timestampPath expression =>
    have hvalue := resolvePayload_failsOnly effective expression
    refine .bind (hvalue.mono fun _ => .inl) fun value => ?_
    split
    · exact .mapError ((untilText_failsOnly now _).mono fun flaw h => .inr ⟨flaw, rfl, h⟩)
    · exact .error (.inr ⟨_, rfl, nofun⟩)

/-- A Wait state reports the number of its delays exactly when it does not have one. -/
theorem WaitState.nanoseconds_failsOnly (w : WaitState) (state : String) (effective : Json)
    (now : Timestamp) :
    FailsOnly (fun fault => fault.OfDelay state ∨
      w.delays.length ≠ 1 ∧ fault = .invalidDelay state (.count w.delays.length))
      (w.nanoseconds state effective now) := by
  unfold nanoseconds
  split
  · exact (Delay.nanoseconds_failsOnly state effective now _).mono fun _ => .inl
  · next hne =>
    refine .error (.inr ⟨fun h => ?_, rfl⟩)
    obtain ⟨d, hd⟩ := List.length_eq_one_iff.mp h
    exact hne d hd

end StateFlow
