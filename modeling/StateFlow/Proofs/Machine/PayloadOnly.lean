import StateFlow.Execution.Departure
import StateFlow.Proofs.Choice.Evaluation
import StateFlow.Proofs.DataFlow.Filling
import StateFlow.Proofs.Machine.Levels
import StateFlow.Proofs.Path.Grammar

/-!
# Definitions that read the payload only

An expression reads the context object only if it begins with `$$` (`resolve_congr`).  Expressions
that may read it stand in templates, as the subjects of choice rules and as their operands.  Where
none of them begins so, templates are filled and rules are decided in the same way whatever the
context object is, with the same value or the same fault.

## Main definitions

* `ReadsContext`: an expression that begins with `$$`
* `Template.PayloadOnly`, `Rule.PayloadOnly`, `State.PayloadOnly`, `Machine.PayloadOnly`: no
  expression in them does

## Main results

* `Template.fill_congr`, `Rule.firstHolding_congr`: the context object does not matter
-/

namespace StateFlow

/-! ## Expressions -/

/-- The expression begins with `$$`. -/
def ReadsContext (expression : String) : Prop := ['$', '$'] <+: expression.toList

instance (expression : String) : Decidable (ReadsContext expression) :=
  inferInstanceAs (Decidable (_ <+: _))

/-- A path into the context object is written with `$$` at its beginning. -/
theorem Path.readsContext_of_read {expression : String} {path : Path}
    (h : Path.read expression = .ok path) (hroot : path.root = .context) :
    ReadsContext expression := by
  obtain ⟨-, rfl⟩ := read_eq_ok_iff.mp h
  rw [ReadsContext, text, String.toList_ofList, chars, hroot]
  exact List.prefix_append _ _

/-- An expression that does not begin with `$$` has the same value in every context. -/
theorem resolve_congr {expression : String} (h : ¬ ReadsContext expression)
    (payload context context' : Json) :
    resolve payload context' expression = resolve payload context expression := by
  unfold resolve readPath
  cases hread : Path.read expression with
  | error flaw => rfl
  | ok path =>
    have hroot : path.root = .payload := by
      cases hcase : path.root with
      | payload => rfl
      | context => exact (h (Path.readsContext_of_read hread hcase)).elim
    simp only [bind, Except.bind, hroot]

/-! ## Templates -/

namespace Template

/-- The expression of an entry does not begin with `$$`. -/
def ExpressionPayloadOnly : Json → Prop
  | .string expression => ¬ ReadsContext expression
  | _ => True

mutual

/-- No expression in a template begins with `$$`. -/
def PayloadOnly : Json → Prop
  | .object entries => EntriesPayloadOnly entries
  | .array items => ItemsPayloadOnly items
  | _ => True

/-- The same for the items of an array. -/
def ItemsPayloadOnly : List Json → Prop
  | [] => True
  | x :: xs => PayloadOnly x ∧ ItemsPayloadOnly xs

/-- The same for the entries of an object; those named `"key.$"` hold an expression. -/
def EntriesPayloadOnly : List (String × Json) → Prop
  | [] => True
  | (key, template) :: rest =>
    (match filledName? key with
      | some _ => ExpressionPayloadOnly template
      | none => PayloadOnly template) ∧ EntriesPayloadOnly rest

end

variable (payload context context' : Json)

theorem select_congr (key : String) {template : Json} (h : ExpressionPayloadOnly template) :
    select payload context' key template = select payload context key template := by
  cases template with
  | string expression => exact resolve_congr h payload context context'
  | _ => rfl

mutual

/-- The selections of such a template do not begin with `$$`. -/
theorem expressionPayloadOnly_of_mem : (template : Json) → PayloadOnly template →
    ∀ e ∈ selections template, ExpressionPayloadOnly e.2
  | .object entries, h => by
    rw [PayloadOnly] at h
    exact expressionPayloadOnly_of_mem_entries entries h
  | .array items, h => by
    rw [PayloadOnly] at h
    exact expressionPayloadOnly_of_mem_items items h
  | .null, _ | .boolean _, _ | .number _, _ | .string _, _ => nofun

theorem expressionPayloadOnly_of_mem_items : (items : List Json) → ItemsPayloadOnly items →
    ∀ e ∈ itemsSelections items, ExpressionPayloadOnly e.2
  | [], _ => nofun
  | x :: xs, h => by
    rw [ItemsPayloadOnly] at h
    exact List.forall_mem_append.mpr ⟨expressionPayloadOnly_of_mem x h.1,
      expressionPayloadOnly_of_mem_items xs h.2⟩

theorem expressionPayloadOnly_of_mem_entries : (entries : List (String × Json)) →
    EntriesPayloadOnly entries → ∀ e ∈ entriesSelections entries, ExpressionPayloadOnly e.2
  | [], _ => nofun
  | (key, template) :: rest, h => by
    rw [EntriesPayloadOnly] at h
    obtain ⟨htemplate, hrest⟩ := h
    rw [entriesSelections]
    refine List.forall_mem_append.mpr ⟨?_, expressionPayloadOnly_of_mem_entries rest hrest⟩
    cases hname : filledName? key with
    | some name =>
      rw [hname] at htemplate
      exact List.forall_mem_singleton.mpr htemplate
    | none =>
      rw [hname] at htemplate
      exact expressionPayloadOnly_of_mem template htemplate

end

/-- **A template without expressions for the context is filled the same in every context.** -/
theorem fill_congr (template : Json) (h : PayloadOnly template) :
    fill payload context' template = fill payload context template :=
  fill_congr_of_selections fun e he =>
    select_congr payload context context' e.1 (expressionPayloadOnly_of_mem template h e he)

theorem effectiveInput_congr {template? : Option Json}
    (h : ∀ template ∈ template?, PayloadOnly template) :
    effectiveInput payload context' template? = effectiveInput payload context template? := by
  cases template? with
  | none => rfl
  | some template => exact fill_congr payload context context' template (h template rfl)

end Template

/-! ## Choice rules -/

/-- The path operand of a test does not begin with `$$`. -/
def Test.PayloadOnly : Test → Prop
  | .compare _ _ (.path expression) => ¬ ReadsContext expression
  | _ => True

namespace Rule

mutual

/-- No subject and no path operand of a test in a rule begins with `$$`. -/
def PayloadOnly : Rule → Prop
  | and _ rules | or _ rules => AllPayloadOnly rules
  | not _ rule => rule.PayloadOnly
  | test frame t => (∀ expression ∈ frame.subject?, ¬ ReadsContext expression) ∧ t.PayloadOnly

/-- The same for several rules. -/
def AllPayloadOnly : List Rule → Prop
  | [] => True
  | r :: rs => r.PayloadOnly ∧ AllPayloadOnly rs

end

end Rule

variable (payload context context' : Json)

theorem Test.holds_congr {t : Test} {subject? : Option String}
    (hsubject : ∀ expression ∈ subject?, ¬ ReadsContext expression) (ht : t.PayloadOnly) :
    t.holds payload context' subject? = t.holds payload context subject? := by
  cases subject? with
  | none => rfl
  | some expression =>
    have hresolve := resolve_congr (hsubject expression rfl) payload context context'
    have hselected : t.subject payload context' expression =
        t.subject payload context expression := by
      unfold subject
      rw [hresolve]
    have houtcome : t.outcome payload context' = t.outcome payload context := by
      funext subject
      cases t with
      | compare kind relation operand =>
        cases operand with
        | literal value => rfl
        | path other =>
          simp only [outcome, resolve_congr ht payload context context']
      | like pattern => rfl
      | type test expected => rfl
    simp only [holds, hselected, houtcome]

namespace Rule

theorem allPayloadOnly_iff (rules : List Rule) :
    AllPayloadOnly rules ↔ ∀ r ∈ rules, r.PayloadOnly := by
  induction rules with
  | nil => simp [AllPayloadOnly]
  | cons r rules ih => rw [AllPayloadOnly, ih, List.forall_mem_cons]

theorem holds_congr {rule : Rule} (h : rule.PayloadOnly) :
    rule.holds payload context' = rule.holds payload context := by
  induction rule using Rule.induction with
  | and frame rules ih =>
    rw [PayloadOnly, allPayloadOnly_iff] at h
    have hrules := allHold_map_congr (f := id) fun r hr => ih r hr (h r hr)
    rwa [List.map_id] at hrules
  | or frame rules ih =>
    rw [PayloadOnly, allPayloadOnly_iff] at h
    have hrules := anyHolds_map_congr (f := id) fun r hr => ih r hr (h r hr)
    rwa [List.map_id] at hrules
  | not frame rule ih =>
    rw [PayloadOnly] at h
    rw [holds, holds, ih h]
  | test frame t =>
    rw [PayloadOnly] at h
    rw [holds, holds, Test.holds_congr payload context context' h.1 h.2]

/-- **The first rule that holds is the same in every context.** -/
theorem firstHolding_congr {rules : List Rule} (h : ∀ r ∈ rules, r.PayloadOnly) :
    firstHolding payload context' rules = firstHolding payload context rules := by
  induction rules with
  | nil => rfl
  | cons r rs ih =>
    rw [firstHolding, firstHolding, holds_congr payload context context' (h r (by simp)),
      ih fun r hr => h r (List.mem_cons_of_mem _ hr)]

end Rule

/-! ## States and machines -/

/-- No expression in the template or in the rules of a state begins with `$$`. -/
def State.PayloadOnly : State → Prop
  | .task t => ∀ template ∈ t.parameters?, Template.PayloadOnly template
  | .choice c => ∀ r ∈ c.rules, r.PayloadOnly
  | .map s _ _ => ∀ template ∈ s.template?, Template.PayloadOnly template
  | _ => True

/-- No expression in a template or a rule, at any level of a machine, begins with `$$`. -/
def Machine.PayloadOnly (m : Machine) : Prop :=
  ∀ level, m.HasLevel level → ∀ entry ∈ level.states, entry.2.PayloadOnly

theorem ChoiceState.outcome_congr {choice : ChoiceState}
    (h : (State.choice choice).PayloadOnly) (name : String) (input : Json) :
    choice.outcome name input context' = choice.outcome name input context := by
  have hfirst : ∀ effective, Rule.firstHolding effective context' choice.rules =
      Rule.firstHolding effective context choice.rules :=
    fun effective => Rule.firstHolding_congr effective context context' h
  simp only [outcome, hfirst]

end StateFlow
