import StateFlow.Proofs.Choice.Evaluation

/-!
# Guarding a rule by presence

A test fails where a path that it reads leads to nothing; `IsPresent` alone does not.  A rule can so
be guarded: `And` of presence tests for the paths that the rule reads, and of the rule behind them.
The guards stop the evaluation at the first path that leads to nothing, and behind all of them no
path of the rule does.

Other faults pass through.  An expression that is not a path is refused by its guard, and a test
that names no subject fails behind the guards as it does without them.

## Main definitions

* `Rule.expressions`: the expressions that the tests of a rule resolve
* `Rule.guarded`: a rule behind presence tests
* `Fault.NotMissing`: the faults other than that a path leads to nothing

## Main results

* `Rule.holds_notMissing`: a rule all of whose expressions lead to values meets no missing path
* `Rule.holds_guarded`: what guarding a rule comes to
-/

namespace StateFlow

/-- Anything but that a path leads to nothing. -/
def Fault.NotMissing (fault : Fault) : Prop := ∀ expression, fault ≠ .pathNotFound expression

/-- The expression leads to a value. -/
def Present (payload context : Json) (expression : String) : Prop :=
  ∃ value, resolve payload context expression = .ok value

/-- The path that stands as the operand of a comparison. -/
def Test.operandPath? : Test → Option String
  | compare _ _ (.path expression) => some expression
  | _ => none

namespace Rule

mutual

/-- The expressions that the tests of a rule resolve: what they test and, if paths, the operands. -/
def expressions : Rule → List String
  | and _ rules | or _ rules => allExpressions rules
  | not _ rule => expressions rule
  | test frame t => frame.subject?.toList ++ t.operandPath?.toList

/-- The expressions that the tests of some rules resolve. -/
def allExpressions : List Rule → List String
  | [] => []
  | rule :: rules => expressions rule ++ allExpressions rules

end

/-- The test that an expression leads to a value. -/
def presence (expression : String) : Rule := test ⟨some expression, none⟩ (.type .isPresent true)

/-- A rule behind presence tests. -/
def guarded (frame : RuleFrame) (paths : List String) (rule : Rule) : Rule :=
  and frame (paths.map presence ++ [rule])

theorem expressions_subset_of_mem {rule : Rule} {rules : List Rule} (h : rule ∈ rules) :
    rule.expressions ⊆ allExpressions rules := by
  induction rules with
  | nil => cases h
  | cons first rules ih =>
    rw [allExpressions]
    rcases List.mem_cons.mp h with rfl | h
    · exact List.subset_append_left _ _
    · exact fun expression hmem => List.mem_append_right _ (ih h hmem)

end Rule

variable {payload context : Json}

/-! ## Tests whose paths lead somewhere -/

theorem Test.subject_of_present {expression : String} (h : Present payload context expression)
    (t : Test) : ∃ value, t.subject payload context expression = .ok value := by
  obtain ⟨value, hvalue⟩ := h
  refine ⟨some value, ?_⟩
  unfold subject
  split <;> simp [hvalue, bind, Except.bind, pure, Except.pure]

theorem Test.outcome_of_present {t : Test}
    (h : ∀ expression, t.operandPath? = some expression → Present payload context expression)
    (subject : Option Json) : ∃ b, t.outcome payload context subject = .ok b := by
  cases t with
  | compare kind relation operand =>
    cases operand with
    | literal value => exact ⟨_, rfl⟩
    | path expression =>
      obtain ⟨value, hvalue⟩ := h expression rfl
      exact ⟨_, by rw [outcome, hvalue]; rfl⟩
  | like pattern =>
    simp only [outcome]
    split <;> exact ⟨_, rfl⟩
  | type test expected => exact ⟨_, rfl⟩

/-- A test whose paths lead somewhere fails at most for want of a subject. -/
theorem Test.holds_notMissing {subject? : Option String} {t : Test}
    (hsubject : ∀ expression, subject? = some expression → Present payload context expression)
    (hoperand : ∀ expression, t.operandPath? = some expression →
      Present payload context expression) :
    FailsOnly Fault.NotMissing (t.holds payload context subject?) := by
  unfold holds
  split
  · exact .error nofun
  · next expression =>
    obtain ⟨value, hvalue⟩ := t.subject_of_present (hsubject expression rfl)
    obtain ⟨b, hb⟩ := outcome_of_present hoperand value
    rw [hvalue]
    change FailsOnly _ (t.outcome payload context value)
    rw [hb]
    exact .ok b

/-! ## Rules whose paths lead somewhere -/

namespace Rule

/-- **A rule all of whose expressions lead to values meets no missing path.** -/
theorem holds_notMissing {rule : Rule}
    (h : ∀ expression ∈ rule.expressions, Present payload context expression) :
    FailsOnly Fault.NotMissing (rule.holds payload context) := by
  induction rule using Rule.induction with
  | and frame rules ih =>
    rw [holds]
    exact allHold_failsOnly fun r hr => ih r hr fun expression hmem =>
      h expression (expressions_subset_of_mem hr hmem)
  | or frame rules ih =>
    rw [holds]
    exact anyHolds_failsOnly fun r hr => ih r hr fun expression hmem =>
      h expression (expressions_subset_of_mem hr hmem)
  | not frame rule ih =>
    rw [holds]
    exact .bind (ih h) fun b => .ok _
  | test frame t =>
    rw [expressions, List.forall_mem_append] at h
    rw [holds]
    exact Test.holds_notMissing (fun expression hsome => h.1 expression (by simp [hsome]))
      fun expression hsome => h.2 expression (by simp [hsome])

/-! ## Guards -/

/-- A presence test holds where the expression leads to a value, does not where it leads to nothing,
and refuses what is no path. -/
theorem holds_presence (expression : String) :
    ((presence expression).holds payload context = .ok true ↔
      Present payload context expression) ∧
    FailsOnly Fault.NotMissing ((presence expression).holds payload context) := by
  rw [presence, holds, Test.holds, Test.subject, Present]
  cases resolve payload context expression with
  | ok value => exact ⟨⟨fun _ => ⟨value, rfl⟩, fun _ => rfl⟩, .ok true⟩
  | error fault =>
    cases fault with
    | pathNotFound missing => exact ⟨⟨nofun, nofun⟩, .ok false⟩
    | _ => exact ⟨⟨nofun, nofun⟩, .error nofun⟩

theorem allHold_map_presence_iff {paths : List String} :
    allHold payload context (paths.map presence) = .ok true ↔
      ∀ expression ∈ paths, Present payload context expression := by
  rw [allHold_eq_ok_true_iff, List.forall_mem_map]
  simp only [holds_presence]

theorem allHold_map_presence_notMissing (paths : List String) :
    FailsOnly Fault.NotMissing (allHold payload context (paths.map presence)) :=
  allHold_failsOnly <|
    List.forall_mem_map.mpr fun expression _ => (holds_presence expression).2

/-- **Presence guards are enough.**  A rule behind presence tests for at least the expressions that
it resolves never meets a path that leads to nothing, and it holds exactly when all that is tested
for leads to values and the rule by itself holds. -/
theorem holds_guarded {rule : Rule} {paths : List String} (h : rule.expressions ⊆ paths)
    (frame : RuleFrame) (payload context : Json) :
    (∀ expression, (guarded frame paths rule).holds payload context ≠
        .error (.pathNotFound expression)) ∧
      ((guarded frame paths rule).holds payload context = .ok true ↔
        (∀ path ∈ paths, ∃ value, resolve payload context path = .ok value) ∧
          rule.holds payload context = .ok true) := by
  have hguards : allHold payload context (paths.map presence) = .ok true ↔
      ∀ path ∈ paths, ∃ value, resolve payload context path = .ok value :=
    allHold_map_presence_iff
  rw [guarded, holds, allHold_append, allHold_singleton, ← hguards]
  cases hfirst : allHold payload context (paths.map presence) with
  | error fault =>
    refine ⟨fun expression heq => ?_, nofun, fun hall => nomatch hall.1⟩
    cases heq
    exact allHold_map_presence_notMissing paths _ hfirst expression rfl
  | ok b =>
    cases b with
    | false => exact ⟨nofun, nofun, fun hall => nomatch hall.1⟩
    | true =>
      have hrule : FailsOnly Fault.NotMissing (rule.holds payload context) :=
        holds_notMissing fun expression hmem => hguards.mp hfirst expression (h hmem)
      exact ⟨fun expression heq => hrule _ heq expression rfl,
        fun hholds => ⟨rfl, hholds⟩, fun hall => hall.2⟩

/-- A rule that compares a field of the payload, where it is a number, with a limit in the context
object. -/
def belowLimit : Rule :=
  or ⟨none, none⟩ [not ⟨none, none⟩ (test ⟨some "$.a", none⟩ (.type .isNumeric true)),
    test ⟨some "$.a", none⟩ (.compare .numeric .lessThan (.path "$$.limit"))]

/-- Without guards the rule meets a missing path.  Behind guards it does not hold where there is no
limit, and it holds where the limit is high enough. -/
theorem holds_guarded_limit :
    belowLimit.expressions ⊆ ["$$.limit", "$.a"] ∧
      belowLimit.holds (.object [("a", .ofNat 1)]) .empty = .error (.pathNotFound "$$.limit") ∧
      (guarded ⟨none, none⟩ ["$$.limit", "$.a"] belowLimit).holds (.object [("a", .ofNat 1)])
        .empty ≠ .error (.pathNotFound "$$.limit") ∧
      (guarded ⟨none, none⟩ ["$$.limit", "$.a"] belowLimit).holds (.object [("a", .ofNat 1)])
        .empty ≠ .ok true ∧
      (guarded ⟨none, none⟩ ["$$.limit", "$.a"] belowLimit).holds (.object [("a", .ofNat 1)])
        (.object [("limit", .ofNat 2)]) = .ok true := by
  have hexpressions : belowLimit.expressions ⊆ ["$$.limit", "$.a"] := by decide
  have hmissing : resolve (.object [("a", .ofNat 1)]) .empty "$$.limit" =
      .error (.pathNotFound "$$.limit") := rfl
  obtain ⟨hnever, hholds⟩ :=
    holds_guarded hexpressions ⟨none, none⟩ (.object [("a", .ofNat 1)]) .empty
  refine ⟨hexpressions, rfl, hnever _, fun h => ?_, ?_⟩
  · obtain ⟨value, hvalue⟩ := (hholds.mp h).1 "$$.limit" List.mem_cons_self
    rw [hmissing] at hvalue
    cases hvalue
  · refine (holds_guarded hexpressions _ _ _).2.mpr ⟨?_, rfl⟩
    exact List.forall_mem_cons.mpr ⟨⟨_, rfl⟩, List.forall_mem_singleton.mpr ⟨_, rfl⟩⟩

end Rule

end StateFlow
