import StateFlow.Choice.Evaluate
import StateFlow.Proofs.Outcome

/-!
# Evaluating several rules

`And` and `Or` go through their rules and stop at the first that decides them.  What is known of
each rule by itself is here brought to the rules together: what they fail with, when they all hold,
and that rules whose outcomes are the same one by one have the same outcome together.

## Main results

* `Rule.allHold_failsOnly`, `Rule.anyHolds_failsOnly`: faults of several rules are faults of one
* `Rule.allHold_map_congr`, `Rule.anyHolds_map_congr`: only the outcomes of the rules count
* `Rule.allHold_append`: the later rules are reached where the earlier ones hold
-/

namespace StateFlow.Rule

variable {payload context payload' context' : Json} {rules : List Rule}

theorem allHold_failsOnly {P : Fault → Prop}
    (h : ∀ r ∈ rules, FailsOnly P (r.holds payload context)) :
    FailsOnly P (allHold payload context rules) := by
  induction rules with
  | nil => exact .ok _
  | cons r rules ih =>
    obtain ⟨hr, hrules⟩ := List.forall_mem_cons.mp h
    rw [allHold]
    refine .bind hr fun b => ?_
    cases b
    · exact .ok _
    · exact ih hrules

theorem anyHolds_failsOnly {P : Fault → Prop}
    (h : ∀ r ∈ rules, FailsOnly P (r.holds payload context)) :
    FailsOnly P (anyHolds payload context rules) := by
  induction rules with
  | nil => exact .ok _
  | cons r rules ih =>
    obtain ⟨hr, hrules⟩ := List.forall_mem_cons.mp h
    rw [anyHolds]
    refine .bind hr fun b => ?_
    cases b
    · exact ih hrules
    · exact .ok _

theorem allHold_map_congr {f : Rule → Rule}
    (h : ∀ r ∈ rules, (f r).holds payload' context' = r.holds payload context) :
    allHold payload' context' (rules.map f) = allHold payload context rules := by
  induction rules with
  | nil => rfl
  | cons r rules ih =>
    obtain ⟨hr, hrules⟩ := List.forall_mem_cons.mp h
    rw [List.map_cons, allHold, allHold, hr, ih hrules]

theorem anyHolds_map_congr {f : Rule → Rule}
    (h : ∀ r ∈ rules, (f r).holds payload' context' = r.holds payload context) :
    anyHolds payload' context' (rules.map f) = anyHolds payload context rules := by
  induction rules with
  | nil => rfl
  | cons r rules ih =>
    obtain ⟨hr, hrules⟩ := List.forall_mem_cons.mp h
    rw [List.map_cons, anyHolds, anyHolds, hr, ih hrules]

theorem allHold_append (first second : List Rule) :
    allHold payload context (first ++ second) = (do
      if ← allHold payload context first then allHold payload context second
      else return false) := by
  induction first with
  | nil => rfl
  | cons r rules ih =>
    rw [List.cons_append, allHold, allHold, ih]
    cases r.holds payload context with
    | error fault => rfl
    | ok b => cases b <;> rfl

theorem allHold_singleton (rule : Rule) :
    allHold payload context [rule] = rule.holds payload context := by
  rw [allHold, allHold]
  cases rule.holds payload context with
  | error fault => rfl
  | ok b => cases b <;> rfl

theorem allHold_eq_ok_true_iff :
    allHold payload context rules = .ok true ↔
      ∀ r ∈ rules, r.holds payload context = .ok true := by
  induction rules with
  | nil => exact ⟨fun _ => nofun, fun _ => rfl⟩
  | cons r rules ih =>
    rw [allHold, List.forall_mem_cons, ← ih]
    cases r.holds payload context with
    | error fault => exact ⟨nofun, fun h => nomatch h.1⟩
    | ok b =>
      cases b with
      | false => exact ⟨nofun, fun h => nomatch h.1⟩
      | true => exact ⟨fun h => ⟨rfl, h⟩, fun h => h.2⟩

end StateFlow.Rule
