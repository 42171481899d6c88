import StateFlow.Choice.Codec
import StateFlow.Proofs.Outcome

/-!
# Rules are read back

A rule is written under the one word of its operator, which is put together from a value kind, a
relation and the ending of a path operand; reading takes the word apart again.  Not every rule can
be written so that it is read back: booleans have no order, and a literal must be of the kind that
is compared (`Rule.Readable`).  Whatever was read is such a rule, so rules are read back.

## Main definitions

* `Test.Readable`, `Rule.Readable`: the tests and rules that a document can write

## Main results

* `Rule.read_yields`: what a document writes is readable
* `Rule.read_toJson`: a readable rule is read back from its document
-/

namespace StateFlow

/-! ## Operators -/

/-- Booleans are compared for equality only. -/
def ValueKind.Compares (kind : ValueKind) (relation : Relation) : Prop :=
  kind = .boolean → relation = .equals

/-- A test that a document can write. -/
def Test.Readable : Test → Prop
  | .compare kind relation (.literal value) =>
    kind.Compares relation ∧ kind.admits value = true
  | .compare kind relation (.path _) => kind.Compares relation
  | .like _ | .type _ _ => True

namespace Rule

/-- The word of a comparison names its kind and its relation. -/
theorem comparison?_word {kind : ValueKind} {relation : Relation}
    (h : kind.Compares relation) :
    comparison? (kind.word ++ relation.word).toList = some (kind, relation) := by
  cases kind with
  | boolean =>
    obtain rfl : relation = .equals := h rfl
    decide
  | _ => cases relation <;> decide

theorem comparison?_compares {word : List Char} {kind : ValueKind} {relation : Relation}
    (h : comparison? word = some (kind, relation)) : kind.Compares relation := by
  simp only [comparison?, Option.bind_eq_bind, Option.bind_eq_some_iff, Prod.exists] at h
  obtain ⟨kind', rest, -, relation', -, h⟩ := h
  split at h
  · cases h
  · next hcompares =>
    cases h
    intro hkind
    exact Decidable.byContradiction fun hrelation => hcompares ⟨hkind, hrelation⟩

/-- The word of a comparison with a literal has no ending. -/
theorem beforePath?_word (kind : ValueKind) (relation : Relation) :
    beforePath? (kind.word ++ relation.word).toList = none := by
  cases kind <;> cases relation <;> decide

theorem beforePath?_word_path (kind : ValueKind) (relation : Relation) :
    beforePath? (kind.word ++ relation.word ++ "Path").toList =
      some (kind.word ++ relation.word).toList := by
  cases kind <;> cases relation <;> decide

/-- A comparison is read back from its operator and its operand. -/
theorem readComparison_operator {kind : ValueKind} {relation : Relation} {operand : Operand}
    (h : (Test.compare kind relation operand).Readable) :
    readComparison (Test.compare kind relation operand).operator
      (operandOf (.compare kind relation operand)) = .ok (.compare kind relation operand) := by
  cases operand with
  | literal value =>
    obtain ⟨hcompares, hadmits⟩ := h
    simp only [readComparison, Test.operator, operandOf, beforePath?_word,
      comparison?_word hcompares, hadmits, Bool.false_eq_true, if_false, if_true]
  | path expression =>
    simp only [readComparison, Test.operator, operandOf, beforePath?_word_path,
      comparison?_word h, if_true]

/-- The fields of a rule beside its operator. -/
def plainFields : List String := ["Variable", "Next", "Comment"]

/-- The operators that combine rules. -/
def combining : List String := ["And", "Or", "Not"]

/-- The operator of a comparison is no other word that a rule may have. -/
theorem operator_compare_not_mem (kind : ValueKind) (relation : Relation) (operand : Operand) :
    (Test.compare kind relation operand).operator ∉
      plainFields ++ combining ++ "StringMatches" :: TypeTest.all.map TypeTest.word := by
  cases operand with
  | literal value =>
    show kind.word ++ relation.word ∉ _
    cases kind <;> cases relation <;> decide
  | path expression =>
    show kind.word ++ relation.word ++ "Path" ∉ _
    cases kind <;> cases relation <;> decide

/-- The operator of a test is no field and combines no rules. -/
theorem operator_not_mem (t : Test) : t.operator ∉ plainFields ++ combining := by
  cases t with
  | compare kind relation operand =>
    intro h
    exact operator_compare_not_mem kind relation operand (List.mem_append_left _ h)
  | like pattern =>
    show "StringMatches" ∉ _
    decide
  | type test expected =>
    show test.word ∉ _
    cases test <;> decide

/-- **A test is read back** from its operator and its operand. -/
theorem readTest_operator {t : Test} (h : t.Readable) :
    readTest t.operator (operandOf t) = .ok t := by
  cases t with
  | compare kind relation operand =>
    have hother := operator_compare_not_mem kind relation operand
    rw [List.mem_append, List.mem_cons, not_or, not_or] at hother
    obtain ⟨-, hlike, htype⟩ := hother
    have hnone : TypeTest.all.find? (·.word = (Test.compare kind relation operand).operator) =
        none := by
      refine List.find?_eq_none.mpr fun test hmem hword => htype ?_
      exact List.mem_map.mpr ⟨test, hmem, of_decide_eq_true hword⟩
    unfold readTest
    rw [if_neg hlike]
    simp only [hnone]
    exact readComparison_operator h
  | like pattern => rfl
  | type test expected => cases test <;> rfl

theorem readComparison_yields (operator : String) (operand : Json) :
    Yields Test.Readable (readComparison operator operand) := by
  intro t h
  rw [readComparison] at h
  cases hpath : beforePath? operator.toList with
  | none =>
    simp only [hpath, Bool.false_eq_true, if_false] at h
    split at h
    · cases h
    · next kind relation hword =>
      split at h
      · next hadmits =>
        cases h
        exact ⟨comparison?_compares hword, hadmits⟩
      · cases h
  | some word =>
    simp only [hpath, if_true] at h
    split at h
    · cases h
    · next kind relation hword =>
      split at h
      · cases h
        exact comparison?_compares hword
      · cases h

/-- What is read as a test can be written. -/
theorem readTest_yields (operator : String) (operand : Json) :
    Yields Test.Readable (readTest operator operand) := by
  unfold readTest
  split
  · split
    · exact .ok trivial
    · exact .error _
  · split
    · split
      · exact .ok trivial
      · exact .error _
    · exact readComparison_yields operator operand

/-! ## Rules -/

mutual

/-- A rule whose tests a document can write. -/
def Readable : Rule → Prop
  | and _ rules | or _ rules => AllReadable rules
  | not _ rule => rule.Readable
  | test _ t => t.Readable

/-- All of some rules can be written. -/
def AllReadable : List Rule → Prop
  | [] => True
  | rule :: rules => rule.Readable ∧ AllReadable rules

end

/-- What an entry reads as beside its value. -/
def Reading.Sound (reading : Reading) : Prop :=
  Yields Readable reading.rule ∧ Yields AllReadable reading.rules

theorem ofOperator_yields (frame : RuleFrame) (operator : String) {operand : Reading}
    (h : operand.Sound) : Yields Readable (ofOperator frame operator operand) := by
  unfold ofOperator
  split
  · exact .bind fun rules hrules => .ok (h.2 rules hrules)
  · split
    · exact .bind fun rules hrules => .ok (h.2 rules hrules)
    · split
      · exact .bind fun rule hrule => .ok (h.1 rule hrule)
      · exact .bind fun t ht => .ok (readTest_yields _ _ t ht)

theorem ofEntries_yields {entries : List (String × Reading)}
    (h : ∀ e ∈ entries, Reading.Sound e.2) : Yields Readable (ofEntries entries) := by
  unfold ofEntries
  refine .bind fun subject? _ => .bind fun next? _ => ?_
  dsimp only
  split
  · exact .error _
  · next operator operand heq =>
    have hmem : (operator, operand) ∈ entries :=
      Entries.mem_of_mem_swapRemove (Entries.mem_of_mem_swapRemove
        (Entries.mem_of_mem_swapRemove (heq ▸ List.mem_cons_self)))
    exact ofOperator_yields _ operator (h _ hmem)
  · exact .error _

mutual

/-- **What a document writes is readable.** -/
theorem read_yields : (document : Json) → Yields Readable (read document)
  | .object entries => ofEntries_yields (readEntries_sound entries)
  | .null | .boolean _ | .number _ | .string _ | .array _ => .error _

theorem readItems_yields : (items : List Json) → Yields AllReadable (readItems items)
  | [] => .ok trivial
  | item :: items => by
    rw [readItems]
    exact .bind fun rule hrule => .bind fun rules hrules =>
      .ok ⟨read_yields item rule hrule, readItems_yields items rules hrules⟩

theorem readRules_yields (operator : String) :
    (document : Json) → Yields AllReadable (readRules operator document)
  | .array items => readItems_yields items
  | .null | .boolean _ | .number _ | .string _ | .object _ => .error _

theorem readEntries_sound : (entries : List (String × Json)) →
    ∀ e ∈ readEntries entries, Reading.Sound e.2
  | [] => nofun
  | (name, value) :: entries => by
    rw [readEntries]
    exact List.forall_mem_cons.mpr
      ⟨⟨read_yields value, readRules_yields name value⟩, readEntries_sound entries⟩

end

/-! ## Writing and reading -/

/-- An object that was put together for a rule is taken apart into its frame, operator and
operand. -/
theorem read_assemble (frame : RuleFrame) {operator : String} (operand : Json)
    (h : operator ∉ plainFields) : read (assemble frame operator operand) =
      ofOperator frame operator ⟨operand, read operand, readRules operator operand⟩ := by
  obtain ⟨subject?, next?⟩ := frame
  simp only [plainFields, List.mem_cons, List.not_mem_nil, or_false, not_or] at h
  obtain ⟨hvariable, hnext, hcomment⟩ := h
  cases subject? <;> cases next? <;>
    simp [assemble, read, readEntries, ofEntries, optionalString, Entries.get?,
      Entries.swapRemove, hvariable, hnext, hcomment, bind, Except.bind]

/-- The document of a rule is an object. -/
theorem toJson_eq_object (rule : Rule) : ∃ entries, rule.toJson = .object entries := by
  cases rule <;> exact ⟨_, by rw [toJson, assemble]⟩

mutual

/-- **A readable rule is read back** from its document. -/
theorem read_toJson : (rule : Rule) → rule.Readable → read rule.toJson = .ok rule
  | and frame rules, h => by
    rw [toJson, read_assemble frame _ (by decide), readRules, readItems_toItems rules h]
    rfl
  | or frame rules, h => by
    rw [toJson, read_assemble frame _ (by decide), readRules, readItems_toItems rules h]
    rfl
  | not frame rule, h => by
    rw [toJson, read_assemble frame _ (by decide), read_toJson rule h]
    rfl
  | test frame t, h => by
    have hoperator := operator_not_mem t
    rw [List.mem_append, not_or] at hoperator
    obtain ⟨hfields, hcombines⟩ := hoperator
    simp only [combining, List.mem_cons, List.not_mem_nil, or_false, not_or] at hcombines
    rw [toJson, read_assemble frame _ hfields, ofOperator, if_neg hcombines.1,
      if_neg hcombines.2.1, if_neg hcombines.2.2, readTest_operator h]
    rfl

theorem readItems_toItems : (rules : List Rule) → AllReadable rules →
    readItems (toItems rules) = .ok rules
  | [], _ => rfl
  | rule :: rules, h => by
    rw [toItems, readItems, read_toJson rule h.1, readItems_toItems rules h.2]
    rfl

end

end Rule

end StateFlow
