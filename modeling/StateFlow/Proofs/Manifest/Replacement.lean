import StateFlow.Manifest.Reference
import StateFlow.Proofs.Choice.Grammar
import StateFlow.Proofs.Machine.FreeDocuments
import StateFlow.Record

/-!
# What replacing references does to a document

References are replaced wherever they stand under the name of a resource, whatever the document is
for.  A document without references under that name is left as it is, and no other is.  Replacing
turns no document into one of another type, and it does not reach inside strings and numbers, so
that every field other than a free document is read as before; a choice rule is too.

## Main definitions

* `Json.resolvedValue`: what replaces the value under a name
* `Json.WithoutReferences`: no reference stands under the name of a resource

## Main results

* `Json.resolveReferences_eq_self_iff`: only documents without references are left as they are
* `Rule.read_resolveReferences`: a choice rule is read as before
-/

namespace StateFlow

namespace Json

/-! ## Values under their names -/

/-- What replaces the value under a name. -/
def resolvedValue (name : String) (value : Json) : Json :=
  match replacement? name value with
  | some function => .string function
  | none => value.resolveReferences

theorem resolveItems_eq_map (items : List Json) :
    resolveItems items = items.map resolveReferences := by
  induction items with
  | nil => rfl
  | cons item items ih => rw [resolveItems, ih, List.map_cons]

theorem resolveEntries_eq_map (entries : List (String × Json)) :
    resolveEntries entries = entries.map fun e => (e.1, resolvedValue e.1 e.2) := by
  induction entries with
  | nil => rfl
  | cons e entries ih =>
    obtain ⟨name, value⟩ := e
    rw [resolveEntries, ih, List.map_cons]
    rfl

theorem replacement?_of_ne {name : String} (h : name ≠ resourceName) (value : Json) :
    replacement? name value = none := if_neg h

theorem eq_of_replacement? {name function : String} {value : Json}
    (h : replacement? name value = some function) : name = resourceName := by
  by_contra hne
  rw [replacement?_of_ne hne] at h
  cases h

/-- Under any other name only what is inside the value is replaced. -/
theorem resolvedValue_of_ne {name : String} (h : name ≠ resourceName) (value : Json) :
    resolvedValue name value = value.resolveReferences := by
  rw [resolvedValue, replacement?_of_ne h]

/-! ## Documents without references -/

mutual

/-- No reference stands under the name of a resource, at any depth. -/
def WithoutReferences : Json → Prop
  | array items => ItemsWithoutReferences items
  | object entries => EntriesWithoutReferences entries
  | _ => True

/-- The same for items. -/
def ItemsWithoutReferences : List Json → Prop
  | [] => True
  | item :: items => item.WithoutReferences ∧ ItemsWithoutReferences items

/-- The same for entries. -/
def EntriesWithoutReferences : List (String × Json) → Prop
  | [] => True
  | (name, value) :: entries =>
    (replacement? name value = none ∧ value.WithoutReferences) ∧ EntriesWithoutReferences entries

end

theorem itemsWithoutReferences_iff (items : List Json) :
    ItemsWithoutReferences items ↔ ∀ x ∈ items, x.WithoutReferences := by
  induction items with
  | nil => simp [ItemsWithoutReferences]
  | cons item items ih => simp [ItemsWithoutReferences, ih]

theorem entriesWithoutReferences_iff (entries : List (String × Json)) :
    EntriesWithoutReferences entries ↔
      ∀ e ∈ entries, replacement? e.1 e.2 = none ∧ e.2.WithoutReferences := by
  induction entries with
  | nil => simp [EntriesWithoutReferences]
  | cons e entries ih => simp [EntriesWithoutReferences, ih]

/-- A reference is an object, so it is not what replaces it. -/
theorem resolvedValue_eq_self_iff {name : String} {value : Json} :
    resolvedValue name value = value ↔
      replacement? name value = none ∧ value.resolveReferences = value := by
  unfold resolvedValue
  cases h : replacement? name value with
  | none => simp
  | some function =>
    refine ⟨fun hequal => ?_, nofun⟩
    have hstring : string function = value := hequal
    subst hstring
    rw [replacement?] at h
    split at h <;> cases h

/-- **Only documents without references are left as they are.** -/
theorem resolveReferences_eq_self_iff (document : Json) :
    document.resolveReferences = document ↔ document.WithoutReferences := by
  induction document using Json.induction with
  | object entries ih =>
    rw [resolveReferences, object.injEq, resolveEntries_eq_map, map_eq_self_iff,
      WithoutReferences, entriesWithoutReferences_iff]
    refine forall₂_congr fun e he => ?_
    rw [Prod.ext_iff, ← ih e he, ← resolvedValue_eq_self_iff]
    exact and_iff_right rfl
  | array items ih =>
    rw [resolveReferences, array.injEq, resolveItems_eq_map, map_eq_self_iff,
      WithoutReferences, itemsWithoutReferences_iff]
    exact forall₂_congr ih
  | scalar document hentries hitems =>
    cases document with
    | object | array => contradiction
    | _ => simp [resolveReferences, WithoutReferences]

/-! ## Fields -/

section Fields

variable (value : Json)

theorem readString_resolveReferences : value.resolveReferences.readString = value.readString := by
  cases value <;> rfl

theorem readBoolean_resolveReferences :
    value.resolveReferences.readBoolean = value.readBoolean := by
  cases value <;> rfl

theorem readCount_resolveReferences (greatest : Nat) :
    value.resolveReferences.readCount greatest = value.readCount greatest := by
  cases value <;> rfl

theorem readPathField_resolveReferences :
    value.resolveReferences.readPathField = value.readPathField := by
  cases value <;> rfl

theorem readOptional_resolveReferences {α : Type} {read : Json → Except RecordError α}
    (h : read value.resolveReferences = read value) :
    value.resolveReferences.readOptional read = value.readOptional read := by
  cases value <;> first | rfl | exact congrArg (some <$> ·) h

theorem readDocument?_resolveReferences :
    value.resolveReferences.readDocument? = value.readDocument?.map resolveReferences := by
  cases value <;> rfl

theorem readItems_resolveReferences :
    value.resolveReferences.readItems = List.map resolveReferences <$> value.readItems := by
  cases value with
  | array items => exact congrArg Except.ok (resolveItems_eq_map items)
  | _ => rfl

end Fields

end Json

/-! ## Rules -/

namespace Rule

/-- An operand that is an array or an object makes no comparison, whatever is in it. -/
theorem readComparison_resolveReferences (operator : String) (operand : Json) :
    readComparison operator operand.resolveReferences = readComparison operator operand := by
  have hadmitted : ∀ kind : ValueKind, ∀ relation,
      (if kind.admits operand.resolveReferences = true then
        Except.ok (Test.compare kind relation (.literal operand.resolveReferences))
      else .error (RuleError.invalidField operator kind.expectedLiteral)) =
      if kind.admits operand = true then .ok (Test.compare kind relation (.literal operand))
      else .error (RuleError.invalidField operator kind.expectedLiteral) := by
    intro kind relation
    cases operand <;> cases kind <;> rfl
  unfold readComparison
  simp only [hadmitted]
  cases operand <;> rfl

theorem readTest_resolveReferences (operator : String) (operand : Json) :
    readTest operator operand.resolveReferences = readTest operator operand := by
  unfold readTest
  rw [readComparison_resolveReferences]
  cases operand <;> rfl

theorem readTest_resolvedValue (operator : String) (operand : Json) :
    readTest operator (Json.resolvedValue operator operand) = readTest operator operand := by
  by_cases h : operator = Json.resourceName
  · subst h
    rfl
  · rw [Json.resolvedValue_of_ne h, readTest_resolveReferences]

/-- A document that is read as before, as a rule and as the rules under an operator. -/
def ReadAlike (document : Json) : Prop :=
  read document.resolveReferences = read document ∧
    ∀ operator, readRules operator document.resolveReferences = readRules operator document

theorem ofOperator_resolvedValue {value : Json} (h : ReadAlike value) (frame : RuleFrame)
    (operator : String) :
    ofOperator frame operator (readingOf operator (Json.resolvedValue operator value)) =
      ofOperator frame operator (readingOf operator value) := by
  have hcombined (hne : operator ≠ Json.resourceName) :
      (readingOf operator (Json.resolvedValue operator value)).rule = read value ∧
        (readingOf operator (Json.resolvedValue operator value)).rules =
          readRules operator value := by
    rw [Json.resolvedValue_of_ne hne]
    exact ⟨h.1, h.2 operator⟩
  unfold ofOperator
  split
  · next hand => rw [(hcombined (hand ▸ by decide)).2, readingOf]
  split
  · next hor => rw [(hcombined (hor ▸ by decide)).2, readingOf]
  split
  · next hnot => rw [(hcombined (hnot ▸ by decide)).1, readingOf]
  · rw [readingOf, readingOf, readTest_resolvedValue]

theorem optionalString_resolveEntries {field : String} (h : field ≠ Json.resourceName)
    (entries : List (String × Json)) :
    optionalString (readEntries (Json.resolveEntries entries)) field =
      optionalString (readEntries entries) field := by
  rw [optionalString, optionalString, readEntries_eq_map, readEntries_eq_map, Entries.get?_map,
    Entries.get?_map, Json.resolveEntries_eq_map, Entries.get?_map]
  cases Entries.get? entries field with
  | none => rfl
  | some value =>
    rw [Option.map_some, Json.resolvedValue_of_ne h]
    cases value <;> rfl

theorem read_resolveEntries {entries : List (String × Json)} (h : ∀ e ∈ entries, ReadAlike e.2) :
    read (.object (Json.resolveEntries entries)) = read (.object entries) := by
  have hremoved (es : List (String × Json)) (name : String) :
      Entries.swapRemove (Json.resolveEntries es) name =
        Json.resolveEntries (Entries.swapRemove es name) := by
    rw [Json.resolveEntries_eq_map, Json.resolveEntries_eq_map, Entries.swapRemove_map]
  simp only [read, ofEntries, swapRemove_readEntries, hremoved]
  rw [optionalString_resolveEntries (by decide), optionalString_resolveEntries (by decide)]
  -- what is left are the operator with its operand and entries that should not be there
  have hrest : ∀ e ∈ Entries.swapRemove (Entries.swapRemove (Entries.swapRemove entries "Variable")
      "Next") "Comment", ReadAlike e.2 := by
    intro e he
    exact h e (Entries.mem_of_mem_swapRemove (Entries.mem_of_mem_swapRemove
      (Entries.mem_of_mem_swapRemove he)))
  generalize Entries.swapRemove (Entries.swapRemove (Entries.swapRemove entries "Variable")
    "Next") "Comment" = rest at hrest
  rcases rest with _ | ⟨⟨operator, operand⟩, _ | ⟨second, others⟩⟩
  · rfl
  · have hoperand := hrest _ List.mem_cons_self
    simp only [Json.resolveEntries_eq_map, readEntries_eq_map, List.map_cons, List.map_nil,
      ofOperator_resolvedValue hoperand]
  · simp only [Json.resolveEntries_eq_map, readEntries_eq_map, List.map_cons, List.map_map,
      Entries.keys, Function.comp_def]

theorem readAlike (document : Json) : ReadAlike document := by
  induction document using Json.induction with
  | object entries ih => exact ⟨read_resolveEntries ih, fun _ => rfl⟩
  | array items ih =>
    refine ⟨rfl, fun operator => ?_⟩
    rw [Json.resolveReferences, Json.resolveItems_eq_map, readRules, readRules, readItems_eq_mapM,
      readItems_eq_mapM, List.mapM_map]
    exact mapM_congr fun item hitem => (ih item hitem).1
  | scalar document hentries hitems =>
    cases document with
    | object | array => contradiction
    | _ => exact ⟨rfl, fun _ => rfl⟩

/-- **A choice rule is read as before.** -/
theorem read_resolveReferences (document : Json) :
    read document.resolveReferences = read document := (readAlike document).1

end Rule

end StateFlow
