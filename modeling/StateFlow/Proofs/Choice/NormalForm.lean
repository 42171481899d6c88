import StateFlow.Proofs.Choice.Evaluation

/-!
# Negation normal form

`Not` can be pushed through a rule down to its tests: the negation of `And` is `Or` of the
negations, the negation of `Or` is `And` of the negations, and two negations are none.  The rule
that results has the same outcome on every payload and context object, be it a truth value or a
fault.

An outcome is one of three, and which of several faults comes first depends on the order in which
rules are evaluated and on where this stops.  Duality keeps both: `And` stops at the first rule that
does not hold, `Or` of the negations at the first negation that does, and these are at one place.

## Main definitions

* `Rule.normalForm`, `Rule.negatedForm`: the normal form of a rule and of its negation
* `Rule.IsNormal`: `Not` stands before single tests only

## Main results

* `Rule.allHold_map_of_negated`, `Rule.anyHolds_map_of_negated`: the laws of De Morgan
* `Rule.holds_normalForm`: a rule and its normal form have the same outcome
-/

namespace StateFlow.Rule

/-- The rule with another place to lead to. -/
def leadingTo (next? : Option String) : Rule → Rule
  | and frame rules => and { frame with next? } rules
  | or frame rules => or { frame with next? } rules
  | not frame rule => not { frame with next? } rule
  | test frame t => test { frame with next? } t

mutual

/-- The rule with `Not` pushed down to its tests. -/
def normalForm : Rule → Rule
  | and frame rules => and frame (normalForms rules)
  | or frame rules => or frame (normalForms rules)
  | not frame rule => (negatedForm rule).leadingTo frame.next?
  | test frame t => test frame t

/-- The negation of a rule with `Not` pushed down to its tests. -/
def negatedForm : Rule → Rule
  | and frame rules => or frame (negatedForms rules)
  | or frame rules => and frame (negatedForms rules)
  | not _ rule => normalForm rule
  | test frame t => not ⟨none, none⟩ (test frame t)

/-- The normal forms of rules. -/
def normalForms : List Rule → List Rule
  | [] => []
  | rule :: rules => normalForm rule :: normalForms rules

/-- The normal forms of the negations of rules. -/
def negatedForms : List Rule → List Rule
  | [] => []
  | rule :: rules => negatedForm rule :: negatedForms rules

end

/-- `Not` stands before single tests only. -/
inductive IsNormal : Rule → Prop
  | and (frame : RuleFrame) {rules : List Rule} (h : ∀ rule ∈ rules, IsNormal rule) :
      IsNormal (and frame rules)
  | or (frame : RuleFrame) {rules : List Rule} (h : ∀ rule ∈ rules, IsNormal rule) :
      IsNormal (or frame rules)
  | not (frame inner : RuleFrame) (t : Test) : IsNormal (not frame (test inner t))
  | test (frame : RuleFrame) (t : Test) : IsNormal (test frame t)

theorem normalForms_eq_map (rules : List Rule) : normalForms rules = rules.map normalForm := by
  induction rules with
  | nil => rfl
  | cons rule rules ih => rw [normalForms, ih, List.map_cons]

theorem negatedForms_eq_map (rules : List Rule) : negatedForms rules = rules.map negatedForm := by
  induction rules with
  | nil => rfl
  | cons rule rules ih => rw [negatedForms, ih, List.map_cons]

/-! ## The form -/

@[simp] theorem next?_leadingTo (next? : Option String) (rule : Rule) :
    (rule.leadingTo next?).next? = next? := by
  cases rule <;> rfl

theorem IsNormal.leadingTo {rule : Rule} (h : rule.IsNormal) (next? : Option String) :
    (rule.leadingTo next?).IsNormal := by
  cases h with
  | and frame h => exact .and _ h
  | or frame h => exact .or _ h
  | not frame inner t => exact .not _ inner t
  | test frame t => exact .test _ t

theorem isNormal_forms (rule : Rule) : rule.normalForm.IsNormal ∧ rule.negatedForm.IsNormal := by
  induction rule using Rule.induction with
  | and frame rules ih =>
    rw [normalForm, negatedForm, normalForms_eq_map, negatedForms_eq_map]
    exact ⟨.and _ (List.forall_mem_map.mpr fun r hr => (ih r hr).1),
      .or _ (List.forall_mem_map.mpr fun r hr => (ih r hr).2)⟩
  | or frame rules ih =>
    rw [normalForm, negatedForm, normalForms_eq_map, negatedForms_eq_map]
    exact ⟨.or _ (List.forall_mem_map.mpr fun r hr => (ih r hr).1),
      .and _ (List.forall_mem_map.mpr fun r hr => (ih r hr).2)⟩
  | not frame rule ih =>
    rw [normalForm, negatedForm]
    exact ⟨ih.2.leadingTo _, ih.1⟩
  | test frame t => exact ⟨.test _ _, .not _ _ _⟩

theorem next?_normalForm (rule : Rule) : rule.normalForm.next? = rule.next? := by
  cases rule with
  | not frame rule =>
    rw [normalForm, next?_leadingTo]
    rfl
  | _ => rfl

/-! ## The outcome -/

variable (payload context : Json)

@[simp] theorem holds_leadingTo (next? : Option String) (rule : Rule) :
    (rule.leadingTo next?).holds payload context = rule.holds payload context := by
  cases rule <;> rfl

/-- Some negation holds exactly where not all rules hold, and a fault is met where it was met. -/
theorem anyHolds_map_of_negated {f : Rule → Rule} {rules : List Rule}
    (h : ∀ r ∈ rules, (f r).holds payload context = (! ·) <$> r.holds payload context) :
    anyHolds payload context (rules.map f) = (! ·) <$> allHold payload context rules := by
  induction rules with
  | nil => rfl
  | cons r rules ih =>
    obtain ⟨hr, hrules⟩ := List.forall_mem_cons.mp h
    rw [List.map_cons, anyHolds, allHold, hr, ih hrules]
    cases r.holds payload context with
    | error fault => rfl
    | ok b => cases b <;> rfl

/-- All negations hold exactly where no rule does, and a fault is met where it was met. -/
theorem allHold_map_of_negated {f : Rule → Rule} {rules : List Rule}
    (h : ∀ r ∈ rules, (f r).holds payload context = (! ·) <$> r.holds payload context) :
    allHold payload context (rules.map f) = (! ·) <$> anyHolds payload context rules := by
  induction rules with
  | nil => rfl
  | cons r rules ih =>
    obtain ⟨hr, hrules⟩ := List.forall_mem_cons.mp h
    rw [List.map_cons, allHold, anyHolds, hr, ih hrules]
    cases r.holds payload context with
    | error fault => rfl
    | ok b => cases b <;> rfl

theorem not_map_not_map (x : Except Fault Bool) : (! ·) <$> (! ·) <$> x = x := by
  cases x with
  | error fault => rfl
  | ok b => exact congrArg Except.ok (Bool.not_not b)

/-- Both forms are taken together, as either refers to the other under `Not`. -/
theorem holds_forms (rule : Rule) :
    rule.normalForm.holds payload context = rule.holds payload context ∧
      rule.negatedForm.holds payload context = (! ·) <$> rule.holds payload context := by
  induction rule using Rule.induction with
  | and frame rules ih =>
    rw [normalForm, negatedForm, normalForms_eq_map, negatedForms_eq_map, holds, holds, holds]
    exact ⟨allHold_map_congr fun r hr => (ih r hr).1,
      anyHolds_map_of_negated payload context fun r hr => (ih r hr).2⟩
  | or frame rules ih =>
    rw [normalForm, negatedForm, normalForms_eq_map, negatedForms_eq_map, holds, holds, holds]
    exact ⟨anyHolds_map_congr fun r hr => (ih r hr).1,
      allHold_map_of_negated payload context fun r hr => (ih r hr).2⟩
  | not frame rule ih =>
    have hnot : (not frame rule).holds payload context =
        (! ·) <$> rule.holds payload context := by
      rw [holds]
      rfl
    rw [normalForm, negatedForm, holds_leadingTo, hnot, not_map_not_map]
    exact ⟨ih.2, ih.1⟩
  | test frame t => exact ⟨rfl, by rw [negatedForm, holds]; rfl⟩

/-- **A rule and its negation normal form have the same outcome**, the same truth value or the same
fault, on every payload and context object.  In the form `Not` stands before single tests only, and
the form leads to the state that the rule leads to. -/
theorem holds_normalForm (rule : Rule) :
    rule.normalForm.IsNormal ∧ rule.normalForm.next? = rule.next? ∧
      ∀ payload context, rule.normalForm.holds payload context = rule.holds payload context :=
  ⟨(isNormal_forms rule).1, next?_normalForm rule,
    fun payload context => (holds_forms payload context rule).1⟩

end StateFlow.Rule
