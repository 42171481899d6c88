import StateFlow.Proofs.Choice.RoundTrip
import StateFlow.Proofs.DataFlow.ResultPath
import StateFlow.Proofs.Traversal

/-!
# The grammar of choice rules

`Rule.read` accepts the objects of a grammar and no other: `Variable` and `Next` are texts where
they stand, and beside them and `Comment` there is one entry, an operator with an operand that fits
it.  What was read writes the object again, up to the order of its entries and without comments, at
whatever depth.

The reader takes the fields out of an object one after the other, each time with the last entry
moving into the gap.  That changes the order only, so an object that is read is one whose entries
are laid out as fields and one operator, in any order (`Rule.read_object_eq_ok_iff`).

## Main definitions

* `Rule.IsRule`, `Rule.Fits`: the grammar
* `Rule.laidOut`: the entries of a rule
* `Json.withoutComments`: a document without the entries under `Comment`

## Main results

* `Rule.readTest_eq_ok_iff`: an operator and its operand are read as the test that writes them
* `Rule.read_object_eq_ok_iff`: an object is read as a rule with its entries
* `Rule.read_isRule`: which documents are read, and what is written of them
-/

namespace StateFlow

/-- The literals of a kind of value. -/
inductive ValueKind.Literal : ValueKind → Json → Prop
  | string (s : String) : Literal .string (.string s)
  | timestamp (s : String) : Literal .timestamp (.string s)
  | numeric (n : Number) : Literal .numeric (.number n)
  | boolean (b : Bool) : Literal .boolean (.boolean b)

theorem ValueKind.admits_iff {kind : ValueKind} {value : Json} :
    kind.admits value = true ↔ kind.Literal value := by
  constructor
  · intro h
    cases kind <;> cases value <;> first | constructor | cases h
  · intro h
    cases h <;> rfl

namespace Rule

/-! ## The grammar -/

mutual

/-- The objects that write a rule.  As in every object no name stands twice. -/
inductive IsRule : Json → Prop
  | object {entries : List (String × Json)} {operator : String} {operand : Json}
      (hnames : (Entries.keys entries).Nodup)
      (hvariable : ∀ value, ("Variable", value) ∈ entries → ∃ s, value = .string s)
      (hnext : ∀ value, ("Next", value) ∈ entries → ∃ s, value = .string s)
      (hoperator : entries.filter (·.1 ∉ plainFields) = [(operator, operand)])
      (hoperand : Fits operator operand) : IsRule (.object entries)

/-- The operators, each with the operands that fit it. -/
inductive Fits : String → Json → Prop
  | and {items : List Json} (h : ∀ item ∈ items, IsRule item) : Fits "And" (.array items)
  | or {items : List Json} (h : ∀ item ∈ items, IsRule item) : Fits "Or" (.array items)
  | not {document : Json} (h : IsRule document) : Fits "Not" document
  | like (pattern : String) : Fits "StringMatches" (.string pattern)
  | type (test : TypeTest) (expected : Bool) : Fits test.word (.boolean expected)
  | literal {kind : ValueKind} {relation : Relation} {value : Json}
      (hcompares : kind.Compares relation) (hvalue : kind.Literal value) :
      Fits (kind.word ++ relation.word) value
  | path {kind : ValueKind} {relation : Relation} (hcompares : kind.Compares relation)
      (expression : String) : Fits (kind.word ++ relation.word ++ "Path") (.string expression)

end

/-! ## Operators -/

theorem eq_of_afterWord? {word text rest : List Char} (h : afterWord? word text = some rest) :
    text = word ++ rest := by
  unfold afterWord? at h
  split at h
  · next hprefix =>
    cases h
    exact (List.prefix_iff_eq_append.mp (List.isPrefixOf_iff_prefix.mp hprefix)).symm
  · cases h

theorem eq_of_beforePath? {text word : List Char} (h : beforePath? text = some word) :
    text = word ++ "Path".toList := by
  unfold beforePath? at h
  split at h
  · next hsuffix =>
    obtain ⟨front, rfl⟩ := List.isSuffixOf_iff_suffix.mp hsuffix
    cases h
    simp
  · cases h

/-- A word that names a kind and a relation is put together from their words. -/
theorem eq_of_comparison? {word : List Char} {kind : ValueKind} {relation : Relation}
    (h : comparison? word = some (kind, relation)) :
    word = (kind.word ++ relation.word).toList := by
  simp only [comparison?, Option.bind_eq_bind, Option.bind_eq_some_iff, Prod.exists] at h
  obtain ⟨kind', rest, hkind, relation', hrelation, h⟩ := h
  obtain ⟨candidate, -, hcandidate⟩ := List.exists_of_findSome?_eq_some hkind
  obtain ⟨rest', hafter, heq⟩ := Option.map_eq_some_iff.mp hcandidate
  cases heq
  have hrest := List.find?_some hrelation
  split at h
  · cases h
  · cases h
    rw [eq_of_afterWord? hafter, ← of_decide_eq_true hrest, String.toList_append]

theorem operator_of_readComparison {operator : String} {operand : Json} {t : Test}
    (h : readComparison operator operand = .ok t) :
    t.operator = operator ∧ operandOf t = operand := by
  rw [readComparison] at h
  cases hpath : beforePath? operator.toList with
  | none =>
    simp only [hpath, Bool.false_eq_true, if_false] at h
    split at h
    · cases h
    · next kind relation hword =>
      split at h
      · cases h
        exact ⟨String.toList_inj.mp (eq_of_comparison? hword).symm, rfl⟩
      · cases h
  | some word =>
    simp only [hpath, if_true] at h
    split at h
    · cases h
    · next kind relation hword =>
      split at h
      · cases h
        refine ⟨String.toList_inj.mp ?_, rfl⟩
        rw [eq_of_beforePath? hpath, eq_of_comparison? hword]
        exact String.toList_append
      · cases h

/-- An operator and its operand are read as the test that writes them. -/
theorem readTest_eq_ok_iff {operator : String} {operand : Json} {t : Test} :
    readTest operator operand = .ok t ↔
      t.Readable ∧ t.operator = operator ∧ operandOf t = operand := by
  constructor
  · intro h
    refine ⟨readTest_yields operator operand t h, ?_⟩
    unfold readTest at h
    split at h
    · next hlike =>
      split at h
      · cases h
        exact ⟨hlike.symm, rfl⟩
      · cases h
    · split at h
      · next test htest =>
        split at h
        · cases h
          have hword := List.find?_some htest
          exact ⟨of_decide_eq_true hword, rfl⟩
        · cases h
      · exact operator_of_readComparison h
  · rintro ⟨hreadable, rfl, rfl⟩
    exact readTest_operator hreadable

/-! ## What a rule is read from -/

/-- What an operand reads as makes the rule, under the operator of the rule. -/
def MadeOf (reading : Reading) : Rule → Prop
  | and _ rules | or _ rules => reading.rules = .ok rules
  | not _ rule => reading.rule = .ok rule
  | test _ t => t.Readable ∧ operandOf t = reading.value

theorem ofOperator_eq_ok_iff {frame : RuleFrame} {operator : String} {reading : Reading}
    {rule : Rule} : ofOperator frame operator reading = .ok rule ↔
      rule.frame = frame ∧ rule.operator = operator ∧ rule.MadeOf reading := by
  constructor
  · intro h
    unfold ofOperator at h
    split at h
    · next hop =>
      obtain ⟨rules, hrules, heq⟩ := bind_eq_ok_iff.mp h
      cases heq
      exact ⟨rfl, hop.symm, hrules⟩
    · split at h
      · next hop =>
        obtain ⟨rules, hrules, heq⟩ := bind_eq_ok_iff.mp h
        cases heq
        exact ⟨rfl, hop.symm, hrules⟩
      · split at h
        · next hop =>
          obtain ⟨inner, hinner, heq⟩ := bind_eq_ok_iff.mp h
          cases heq
          exact ⟨rfl, hop.symm, hinner⟩
        · obtain ⟨t, ht, heq⟩ := bind_eq_ok_iff.mp h
          cases heq
          obtain ⟨hreadable, hop, hoperand⟩ := readTest_eq_ok_iff.mp ht
          exact ⟨rfl, hop, hreadable, hoperand⟩
  · rintro ⟨rfl, rfl, h⟩
    cases rule with
    | and frame rules => exact bind_eq_ok_iff.mpr ⟨rules, h, rfl⟩
    | or frame rules => exact bind_eq_ok_iff.mpr ⟨rules, h, rfl⟩
    | not frame rule => exact bind_eq_ok_iff.mpr ⟨rule, h, rfl⟩
    | test frame t =>
      have hcombines := operator_not_mem t
      simp only [combining, List.mem_append, List.mem_cons, List.not_mem_nil, or_false,
        not_or] at hcombines
      obtain ⟨-, hand, hor, hnot⟩ := hcombines
      rw [operator, ofOperator, if_neg hand, if_neg hor, if_neg hnot]
      exact bind_eq_ok_iff.mpr ⟨t, readTest_eq_ok_iff.mpr ⟨h.1, rfl, h.2⟩, rfl⟩

/-- The operator of a rule is none of the fields beside it. -/
theorem operator_not_mem_plainFields (rule : Rule) : rule.operator ∉ plainFields := by
  cases rule with
  | and frame rules => exact (by decide : "And" ∉ plainFields)
  | or frame rules => exact (by decide : "Or" ∉ plainFields)
  | not frame rule => exact (by decide : "Not" ∉ plainFields)
  | test frame t => exact fun h => operator_not_mem t (List.mem_append_left _ h)

/-! ## Objects -/

/-- A value with what it reads as under a name. -/
def readingOf (name : String) (value : Json) : Reading := ⟨value, read value, readRules name value⟩

theorem readEntries_eq_map (entries : List (String × Json)) :
    readEntries entries = entries.map fun e => (e.1, readingOf e.1 e.2) := by
  induction entries with
  | nil => rfl
  | cons e rest ih =>
    obtain ⟨name, value⟩ := e
    rw [readEntries, ih, List.map_cons, readingOf]

theorem swapRemove_readEntries (entries : List (String × Json)) (name : String) :
    Entries.swapRemove (readEntries entries) name =
      readEntries (Entries.swapRemove entries name) := by
  rw [readEntries_eq_map, readEntries_eq_map, Entries.swapRemove_map]

theorem optionalString_readEntries_eq_ok_iff {entries : List (String × Json)} {field : String}
    {s? : Option String} : optionalString (readEntries entries) field = .ok s? ↔
      Entries.get? entries field = s?.map .string := by
  rw [optionalString, readEntries_eq_map, Entries.get?_map]
  cases Entries.get? entries field with
  | none => cases s? <;> simp
  | some value => cases value <;> cases s? <;> simp [readingOf]

/-- The entries of a rule: fields that may be left out, and the operator with its operand. -/
def laidOut (frame : RuleFrame) (comment? : Option Json) (operator : String) (operand : Json) :
    List (String × Json) :=
  Entries.optional "Variable" (frame.subject?.map .string) ++
    (Entries.optional "Next" (frame.next?.map .string) ++
      (Entries.optional "Comment" comment? ++ [(operator, operand)]))

/-- **An object is read as a rule with its entries**, in whatever order these stand. -/
theorem read_object_eq_ok_iff {entries : List (String × Json)} {rule : Rule} :
    read (.object entries) = .ok rule ↔ ∃ comment? operand,
      entries.Perm (laidOut rule.frame comment? rule.operator operand) ∧
        rule.MadeOf (readingOf rule.operator operand) := by
  simp only [read, ofEntries, bind_eq_ok_iff, swapRemove_readEntries,
    optionalString_readEntries_eq_ok_iff]
  constructor
  · rintro ⟨subject?, hsubject, next?, hnext, h⟩
    have hvariables := Entries.perm_swapRemove entries "Variable"
    have hnexts := Entries.perm_swapRemove (Entries.swapRemove entries "Variable") "Next"
    have hcomments := Entries.perm_swapRemove
      (Entries.swapRemove (Entries.swapRemove entries "Variable") "Next") "Comment"
    rw [hsubject] at hvariables
    rw [hnext] at hnexts
    generalize Entries.swapRemove _ "Comment" = rest at h hcomments
    generalize Entries.get? _ "Comment" = comment? at hcomments
    cases rest with
    | nil => cases h
    | cons e others =>
      cases others with
      | cons => cases h
      | nil =>
        obtain ⟨operator, operand⟩ := e
        obtain ⟨hframe, rfl, hmade⟩ := ofOperator_eq_ok_iff.mp h
        refine ⟨comment?, operand, ?_, hmade⟩
        rw [hframe]
        exact hvariables.trans (.append_left _ (hnexts.trans (.append_left _ hcomments)))
  · rintro ⟨comment?, operand, hperm, hmade⟩
    have hop := rule.operator_not_mem_plainFields
    simp only [plainFields, List.mem_cons, List.not_mem_nil, or_false, not_or] at hop
    obtain ⟨hvariable, hnext, hcomment⟩ := hop
    obtain ⟨hsubject?, hperm⟩ := Entries.swapRemove_of_perm hperm (by
      simp [Entries.keys, Entries.optional, Ne.symm hvariable])
    obtain ⟨hnext?, hperm⟩ := Entries.swapRemove_of_perm hperm (by
      simp [Entries.keys, Entries.optional, Ne.symm hnext])
    obtain ⟨-, hperm⟩ := Entries.swapRemove_of_perm hperm (by
      simp [Entries.keys, Ne.symm hcomment])
    refine ⟨_, hsubject?, _, hnext?, ?_⟩
    rw [List.perm_singleton.mp hperm]
    exact ofOperator_eq_ok_iff.mpr ⟨rfl, rfl, hmade⟩

theorem exists_eq_map_string {value? : Option Json}
    (h : ∀ value, value? = some value → ∃ s, value = .string s) :
    ∃ s? : Option String, value? = s?.map .string := by
  cases value? with
  | none => exact ⟨none, rfl⟩
  | some value =>
    obtain ⟨s, rfl⟩ := h value rfl
    exact ⟨some s, rfl⟩

/-- The objects whose entries are laid out as a rule, in whatever order. -/
theorem laidOut_iff {entries : List (String × Json)} {operator : String} {operand : Json}
    (h : operator ∉ plainFields) :
    (∃ frame comment?, entries.Perm (laidOut frame comment? operator operand)) ↔
      (Entries.keys entries).Nodup ∧
      (∀ value, ("Variable", value) ∈ entries → ∃ s, value = .string s) ∧
      (∀ value, ("Next", value) ∈ entries → ∃ s, value = .string s) ∧
      entries.filter (·.1 ∉ plainFields) = [(operator, operand)] := by
  constructor
  · rintro ⟨⟨subject?, next?⟩, comment?, hperm⟩
    simp only [plainFields, List.mem_cons, List.not_mem_nil, or_false, not_or] at h
    obtain ⟨hvariable, hnext, hcomment⟩ := h
    have hfilter := hperm.filter (·.1 ∉ plainFields)
    simp only [hperm.mem_iff, (hperm.map Prod.fst).nodup_iff, Entries.keys]
    refine ⟨?_, ?_, ?_, List.perm_singleton.mp (hfilter.trans ?_)⟩
    · cases subject? <;> cases next? <;> cases comment? <;>
        simp [laidOut, Entries.optional, Ne.symm hvariable, Ne.symm hnext, Ne.symm hcomment]
    · cases subject? <;> cases next? <;> cases comment? <;>
        simp [laidOut, Entries.optional, Ne.symm hvariable]
    · cases subject? <;> cases next? <;> cases comment? <;>
        simp [laidOut, Entries.optional, Ne.symm hnext]
    · cases subject? <;> cases next? <;> cases comment? <;>
        simp [laidOut, Entries.optional, plainFields, hvariable, hnext, hcomment]
  · rintro ⟨hnames, hvariable, hnext, hoperator⟩
    -- the fields are taken out one by one, each from what the one before it has left
    have hothers : ∀ {es : List (String × Json)} (name : String), (Entries.keys es).Nodup →
        (Entries.keys (es.filter (·.1 ≠ name))).Nodup :=
      fun name h => h.sublist (List.filter_sublist.map Prod.fst)
    have hvariables := Entries.perm_filter_ne hnames "Variable"
    have hnexts := Entries.perm_filter_ne (hothers "Variable" hnames) "Next"
    have hcomments := Entries.perm_filter_ne (hothers "Next" (hothers "Variable" hnames)) "Comment"
    obtain ⟨subject?, hsubject⟩ := exists_eq_map_string fun value hvalue =>
      hvariable value (Entries.mem_of_get? hvalue)
    obtain ⟨next?, hnext?⟩ := exists_eq_map_string fun value hvalue =>
      hnext value (List.mem_of_mem_filter (Entries.mem_of_get? hvalue))
    have hrest : ((entries.filter (·.1 ≠ "Variable")).filter (·.1 ≠ "Next")).filter
        (·.1 ≠ "Comment") = [(operator, operand)] := by
      rw [← hoperator, List.filter_filter, List.filter_filter]
      refine List.filter_congr fun e _ => ?_
      simp [plainFields, and_comm]
    rw [hsubject] at hvariables
    rw [hnext?] at hnexts
    rw [hrest] at hcomments
    exact ⟨⟨subject?, next?⟩, _,
      hvariables.trans (.append_left _ (hnexts.trans (.append_left _ hcomments)))⟩

/-! ## Which documents are read -/

theorem readItems_eq_mapM (items : List Json) : readItems items = items.mapM read := by
  induction items with
  | nil => rfl
  | cons item items ih => rw [readItems, ih, List.mapM_cons]

theorem readRules_eq_ok_iff {operator : String} {document : Json} {rules : List Rule} :
    readRules operator document = .ok rules ↔
      ∃ items, document = .array items ∧ items.mapM read = .ok rules := by
  cases document with
  | array items => simp [readRules, readItems_eq_mapM]
  | _ => exact ⟨nofun, fun ⟨_, h, _⟩ => nomatch h⟩

theorem fits_operator {t : Test} (h : t.Readable) : Fits t.operator (operandOf t) := by
  cases t with
  | compare kind relation operand =>
    cases operand with
    | literal value => exact .literal h.1 (ValueKind.admits_iff.mp h.2)
    | path expression => exact .path h expression
  | like pattern => exact .like pattern
  | type test expected => exact .type test expected

theorem Fits.not_mem_plainFields {operator : String} {operand : Json} (h : Fits operator operand) :
    operator ∉ plainFields := by
  have htest : ∀ t : Test, t.operator ∉ plainFields := fun t =>
    operator_not_mem_plainFields (.test ⟨none, none⟩ t)
  cases h with
  | and | or | not | like => decide
  | type test expected => exact htest (.type test expected)
  | @literal kind relation => exact htest (.compare kind relation (.literal operand))
  | @path kind relation _ expression => exact htest (.compare kind relation (.path expression))

/-- An operand makes a rule when it fits the operator, provided that rules are read in it as the
grammar says. -/
theorem exists_madeOf_iff (frame : RuleFrame) {operator : String} {operand : Json}
    (hrule : (∃ rule, read operand = .ok rule) ↔ IsRule operand)
    (hitems : ∀ items, operand = .array items →
      ∀ item ∈ items, (∃ rule, read item = .ok rule) ↔ IsRule item) :
    (∃ rule : Rule, rule.frame = frame ∧ rule.operator = operator ∧
      rule.MadeOf (readingOf operator operand)) ↔ Fits operator operand := by
  have hrules : (∃ rules, readRules operator operand = .ok rules) ↔
      ∃ items, operand = .array items ∧ ∀ item ∈ items, IsRule item := by
    simp only [readRules_eq_ok_iff]
    rw [exists_comm]
    refine exists_congr fun items => ?_
    rw [exists_and_left, exists_mapM_eq_ok_iff]
    exact and_congr_right fun h => forall₂_congr (hitems items h)
  constructor
  · rintro ⟨rule, rfl, rfl, h⟩
    cases rule with
    | and frame rules =>
      obtain ⟨items, rfl, hall⟩ := hrules.mp ⟨rules, h⟩
      exact .and hall
    | or frame rules =>
      obtain ⟨items, rfl, hall⟩ := hrules.mp ⟨rules, h⟩
      exact .or hall
    | not frame rule => exact .not (hrule.mp ⟨rule, h⟩)
    | test frame t =>
      obtain ⟨hreadable, rfl⟩ := h
      exact fits_operator hreadable
  · intro h
    cases h with
    | and h =>
      obtain ⟨rules, hmade⟩ := hrules.mpr ⟨_, rfl, h⟩
      exact ⟨.and frame rules, rfl, rfl, hmade⟩
    | or h =>
      obtain ⟨rules, hmade⟩ := hrules.mpr ⟨_, rfl, h⟩
      exact ⟨.or frame rules, rfl, rfl, hmade⟩
    | not h =>
      obtain ⟨rule, hmade⟩ := hrule.mpr h
      exact ⟨.not frame rule, rfl, rfl, hmade⟩
    | like pattern => exact ⟨.test frame (.like pattern), rfl, rfl, trivial, rfl⟩
    | type test expected => exact ⟨.test frame (.type test expected), rfl, rfl, trivial, rfl⟩
    | @literal kind relation _ hcompares hvalue =>
      exact ⟨.test frame (.compare kind relation (.literal operand)), rfl, rfl,
        ⟨hcompares, ValueKind.admits_iff.mpr hvalue⟩, rfl⟩
    | @path kind relation hcompares expression =>
      exact ⟨.test frame (.compare kind relation (.path expression)), rfl, rfl, hcompares, rfl⟩

/-- The documents that are read as a rule are those of the grammar.  The part about items is for the
arrays that `And` and `Or` take, which are no rules themselves. -/
theorem exists_read_iff (document : Json) :
    ((∃ rule, read document = .ok rule) ↔ IsRule document) ∧
      ∀ items, document = .array items →
        ∀ item ∈ items, (∃ rule, read item = .ok rule) ↔ IsRule item := by
  induction document using Json.induction with
  | object entries ih =>
    refine ⟨?_, nofun⟩
    simp only [read_object_eq_ok_iff]
    constructor
    · rintro ⟨rule, comment?, operand, hperm, hmade⟩
      have hmem : (rule.operator, operand) ∈ entries := hperm.mem_iff.mpr (by simp [laidOut])
      obtain ⟨hnames, hvariable, hnext, hoperator⟩ :=
        (laidOut_iff rule.operator_not_mem_plainFields).mp ⟨_, _, hperm⟩
      exact .object hnames hvariable hnext hoperator
        ((exists_madeOf_iff _ (ih _ hmem).1 (ih _ hmem).2).mp ⟨rule, rfl, rfl, hmade⟩)
    · intro h
      cases h with
      | @object _ operator operand hnames hvariable hnext hoperator hoperand =>
        have hmem : (operator, operand) ∈ entries :=
          List.mem_of_mem_filter (hoperator ▸ List.mem_cons_self)
        obtain ⟨frame, comment?, hperm⟩ := (laidOut_iff hoperand.not_mem_plainFields).mpr
          ⟨hnames, hvariable, hnext, hoperator⟩
        obtain ⟨rule, rfl, rfl, hmade⟩ :=
          (exists_madeOf_iff frame (ih _ hmem).1 (ih _ hmem).2).mpr hoperand
        exact ⟨rule, comment?, operand, hperm, hmade⟩
  | array items ih =>
    refine ⟨⟨nofun, nofun⟩, ?_⟩
    rintro _ ⟨⟩ item hitem
    exact (ih item hitem).1
  | scalar document hentries hitems =>
    cases document with
    | object entries => cases hentries
    | array items => cases hitems
    | _ => exact ⟨⟨nofun, nofun⟩, nofun⟩

end Rule

/-! ## What is written of a document that was read -/

namespace Json

mutual

/-- The document without the entries under `Comment`, at whatever depth. -/
def withoutComments : Json → Json
  | array items => array (itemsWithoutComments items)
  | object entries => object (entriesWithoutComments entries)
  | document => document

/-- The same for items. -/
def itemsWithoutComments : List Json → List Json
  | [] => []
  | item :: items => withoutComments item :: itemsWithoutComments items

/-- The same for entries, of which some are left out. -/
def entriesWithoutComments : List (String × Json) → List (String × Json)
  | [] => []
  | (name, value) :: entries =>
    if name = "Comment" then entriesWithoutComments entries
    else (name, withoutComments value) :: entriesWithoutComments entries

end

theorem itemsWithoutComments_eq_map (items : List Json) :
    itemsWithoutComments items = items.map withoutComments := by
  induction items with
  | nil => rfl
  | cons item items ih => rw [itemsWithoutComments, ih, List.map_cons]

theorem entriesWithoutComments_eq_map (entries : List (String × Json)) :
    entriesWithoutComments entries =
      (entries.filter (·.1 ≠ "Comment")).map fun e => (e.1, e.2.withoutComments) := by
  induction entries with
  | nil => rfl
  | cons e entries ih =>
    obtain ⟨name, value⟩ := e
    rw [entriesWithoutComments, ih]
    split
    · next hname => rw [List.filter_cons_of_neg (by simpa using hname)]
    · next hname => rw [List.filter_cons_of_pos (by simpa using hname), List.map_cons]

/-- Items that are rearranged one by one. -/
theorem Rearranged.items {xs ys : List Json} (h : List.Forall₂ Rearranged xs ys) :
    ∀ before, Rearranged (array (before ++ xs)) (array (before ++ ys)) := by
  induction h with
  | nil => exact fun before => .refl _
  | @cons x y xs ys hx _ ih =>
    intro before
    have hrest := ih (before ++ [y])
    rw [List.append_assoc, List.append_assoc] at hrest
    exact (Rearranged.item hx).trans hrest

end Json

namespace Rule

/-- The operand of a rule. -/
def operand : Rule → Json
  | and _ rules | or _ rules => .array (toItems rules)
  | not _ rule => rule.toJson
  | test _ t => operandOf t

theorem toJson_eq_assemble (rule : Rule) :
    rule.toJson = assemble rule.frame rule.operator rule.operand := by
  cases rule <;> rw [toJson] <;> rfl

theorem toItems_eq_map (rules : List Rule) : toItems rules = rules.map toJson := by
  induction rules with
  | nil => rfl
  | cons rule rules ih => rw [toItems, ih, List.map_cons]

/-- The operand of a test holds no comments. -/
theorem withoutComments_operandOf {t : Test} (h : t.Readable) :
    (operandOf t).withoutComments = operandOf t := by
  cases t with
  | compare kind relation operand =>
    cases operand with
    | literal value =>
      have hvalue := ValueKind.admits_iff.mp h.2
      cases hvalue <;> rfl
    | path expression => rfl
  | like pattern => rfl
  | type test expected => rfl

/-- An object of a rule, without comments, is put together from its frame, operator and operand, but
for the order of its entries. -/
theorem rearranged_assemble {entries : List (String × Json)} {frame : RuleFrame}
    {comment? : Option Json} {operator : String} {operand value : Json}
    (hperm : entries.Perm (laidOut frame comment? operator operand))
    (hoperator : operator ∉ plainFields)
    (hvalue : Json.Rearranged operand.withoutComments value) :
    Json.Rearranged (Json.object entries).withoutComments (assemble frame operator value) := by
  obtain ⟨subject?, next?⟩ := frame
  have hcomment : operator ≠ "Comment" := by
    rintro rfl
    exact hoperator (by decide)
  have hkept : ((laidOut ⟨subject?, next?⟩ comment? operator operand).filter
      (·.1 ≠ "Comment")).map (fun e => (e.1, e.2.withoutComments)) =
      Entries.optional "Variable" (subject?.map .string) ++
        (Entries.optional "Next" (next?.map .string) ++ [(operator, operand.withoutComments)]) := by
    cases subject? <;> cases next? <;> cases comment? <;>
      simp [laidOut, Entries.optional, hcomment, Json.withoutComments]
  have hassemble : assemble ⟨subject?, next?⟩ operator value =
      .object (Entries.optional "Variable" (subject?.map .string) ++
        (operator, value) :: Entries.optional "Next" (next?.map .string)) := by
    cases subject? <;> cases next? <;> rfl
  have hentries := (hperm.filter (·.1 ≠ "Comment")).map fun e => (e.1, e.2.withoutComments)
  rw [hkept] at hentries
  rw [Json.withoutComments, Json.entriesWithoutComments_eq_map, hassemble]
  have hmoved := hentries.trans (.append_left _ (List.perm_append_singleton _ _))
  exact (Json.Rearranged.entries hmoved).trans (.entry hvalue)

/-- What was read writes the document again, up to the order of entries and without comments. -/
theorem rearranged_of_read (document : Json) :
    (∀ rule, read document = .ok rule →
      Json.Rearranged document.withoutComments rule.toJson) ∧
    ∀ operator rules, readRules operator document = .ok rules →
      Json.Rearranged document.withoutComments (.array (toItems rules)) := by
  induction document using Json.induction with
  | object entries ih =>
    refine ⟨fun rule h => ?_, nofun⟩
    obtain ⟨comment?, operand, hperm, hmade⟩ := read_object_eq_ok_iff.mp h
    have hmem : (rule.operator, operand) ∈ entries := hperm.mem_iff.mpr (by simp [laidOut])
    obtain ⟨hrule, hrules⟩ := ih _ hmem
    rw [toJson_eq_assemble]
    refine rearranged_assemble hperm rule.operator_not_mem_plainFields ?_
    cases rule with
    | and frame rules => exact hrules _ rules hmade
    | or frame rules => exact hrules _ rules hmade
    | not frame rule => exact hrule rule hmade
    | test frame t =>
      obtain ⟨hreadable, rfl⟩ := hmade
      change Json.Rearranged (operandOf t).withoutComments (operandOf t)
      rw [withoutComments_operandOf hreadable]
      exact .refl _
  | array items ih =>
    refine ⟨nofun, fun operator rules h => ?_⟩
    obtain ⟨_, ⟨⟩, hrules⟩ := readRules_eq_ok_iff.mp h
    rw [Json.withoutComments, Json.itemsWithoutComments_eq_map, toItems_eq_map]
    refine Json.Rearranged.items ?_ []
    rw [List.forall₂_map_left_iff, List.forall₂_map_right_iff]
    have hboth := (List.forall₂_and_left _ _).mpr ⟨ih, mapM_eq_ok_iff.mp hrules⟩
    exact hboth.imp fun item rule hitem => hitem.1.1 rule hitem.2
  | scalar document hentries hitems =>
    cases document with
    | object entries => cases hentries
    | array items => cases hitems
    | _ => exact ⟨nofun, nofun⟩

/-- **Reading accepts the grammar and loses nothing but comments.**  A document is read as a rule
exactly when the grammar has it, and the document that the rule writes is the one that was read, up
to the order of entries and without comments, at whatever depth. -/
theorem read_isRule (document : Json) :
    ((∃ rule, read document = .ok rule) ↔ IsRule document) ∧
      ∀ rule, read document = .ok rule →
        Json.Rearranged document.withoutComments rule.toJson :=
  ⟨(exists_read_iff document).1, (rearranged_of_read document).1⟩

/-- A rule with comments inside and outside, in an unusual order. -/
def commented : Json :=
  .object [("Comment", .object [("And", .null)]), ("Next", .string "Go"),
    ("Not", .object [("NumericLessThanEqualsPath", .string "$.limit"), ("Comment", .null),
      ("Variable", .string "$.a")])]

/-- The rule is accepted and keeps all but its comments; booleans have no order. -/
theorem read_isRule_commented :
    IsRule commented ∧
      (∃ rule, read commented = .ok rule ∧ rule.next? = some "Go" ∧
        Json.Rearranged (.object [("Next", .string "Go"),
          ("Not", .object [("NumericLessThanEqualsPath", .string "$.limit"),
            ("Variable", .string "$.a")])]) rule.toJson) ∧
      ¬ IsRule (.object [("Variable", .string "$.a"), ("BooleanLessThan", .boolean true)]) := by
  have hread : read commented = .ok (.not ⟨none, some "Go"⟩ (.test ⟨some "$.a", none⟩
      (.compare .numeric .lessThanEquals (.path "$.limit")))) := by rfl
  refine ⟨(read_isRule commented).1.mp ⟨_, hread⟩,
    ⟨_, hread, rfl, (read_isRule commented).2 _ hread⟩, fun h => ?_⟩
  obtain ⟨rule, hrule⟩ := (read_isRule _).1.mpr h
  cases hrule

end Rule

end StateFlow
