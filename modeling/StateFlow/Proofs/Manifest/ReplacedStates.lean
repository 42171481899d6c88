import StateFlow.Machine.Codec
import StateFlow.Proofs.Manifest.Replacement

/-!
# States of documents with their references replaced

A state is read field by field.  Where its document has had its references replaced, the fields that
are free documents have theirs replaced, and all other fields are read as before.  A Task state is
read as if only its resource had been replaced; the other states know no resource, and do not see
whether something under that name was.

## Main results

* `PassState.read_resolveEntries` and so on: one for each kind of state
* `Transition.read_map`: a transition is read of two entries, whatever the others hold
-/

namespace StateFlow

open Json

/-! ## Entries in order -/

/-- Steps over entries that are changed each by itself. -/
theorem foldlM_map_entries {σ : Type} {readField : σ → String → Json → Except RecordError σ}
    {f : σ → σ} {k l : String → Json → Json}
    (h : ∀ s name value,
      readField (f s) name (k name value) = f <$> readField s name (l name value))
    (entries : List (String × Json)) (s : σ) :
    (entries.map fun e => (e.1, k e.1 e.2)).foldlM (fun s e => readField s e.1 e.2) (f s) =
      f <$> (entries.map fun e => (e.1, l e.1 e.2)).foldlM (fun s e => readField s e.1 e.2) s := by
  induction entries generalizing s with
  | nil => rfl
  | cons e entries ih =>
    rw [List.map_cons, List.map_cons, List.foldlM_cons, List.foldlM_cons, h, map_bind,
      bind_map_left]
    exact congrArg _ (funext ih)

/-- A record that knows no resource does not see whether a reference under that name was
replaced. -/
theorem readField_resolvedValue {σ : Type}
    {readField : σ → String → Json → Except RecordError σ} {f : σ → σ}
    (hresource : ∀ s value, readField s resourceName value = .ok s)
    (h : ∀ s name value, readField (f s) name value.resolveReferences =
      f <$> readField s name value) (s : σ) (name : String) (value : Json) :
    readField (f s) name (resolvedValue name value) = f <$> readField s name value := by
  cases hreference : replacement? name value with
  | none => rw [resolvedValue, hreference, h]
  | some function =>
    obtain rfl := eq_of_replacement? hreference
    rw [hresource, hresource]
    rfl

theorem foldlM_resolveEntries {σ : Type}
    {readField : σ → String → Json → Except RecordError σ} {f : σ → σ}
    (hresource : ∀ s value, readField s resourceName value = .ok s)
    (h : ∀ s name value, readField (f s) name value.resolveReferences =
      f <$> readField s name value) (entries : List (String × Json)) (s : σ) :
    (resolveEntries entries).foldlM (fun s e => readField s e.1 e.2) (f s) =
      f <$> entries.foldlM (fun s e => readField s e.1 e.2) s := by
  rw [resolveEntries_eq_map]
  have hfold := foldlM_map_entries (l := fun _ value => value)
    (readField_resolvedValue hresource h) entries s
  rwa [List.map_id'' fun _ => rfl] at hfold

/-- A record without free documents is read as before. -/
theorem foldlM_resolveEntries_eq {σ : Type}
    {readField : σ → String → Json → Except RecordError σ}
    (hresource : ∀ s value, readField s resourceName value = .ok s)
    (h : ∀ s name value, readField s name value.resolveReferences = readField s name value)
    (entries : List (String × Json)) (s : σ) :
    (resolveEntries entries).foldlM (fun s e => readField s e.1 e.2) s =
      entries.foldlM (fun s e => readField s e.1 e.2) s := by
  have hfold := foldlM_resolveEntries (f := id) hresource
    (fun s name value => (h s name value).trans (id_map _).symm) entries s
  rwa [id_map] at hfold

theorem namedItems_resolveItems (names : List String) (items : List Json) :
    namedItems names (resolveItems items) =
      (namedItems names items).map fun e => (e.1, e.2.resolveReferences) := by
  rw [namedItems, namedItems, resolveItems_eq_map, List.zip_map_right]
  rfl

theorem foldlM_namedItems_eq {σ : Type}
    {readField : σ → String → Json → Except RecordError σ}
    (h : ∀ s name value, readField s name value.resolveReferences = readField s name value)
    (names : List String) (items : List Json) (s : σ) :
    (namedItems names (resolveItems items)).foldlM (fun s e => readField s e.1 e.2) s =
      (namedItems names items).foldlM (fun s e => readField s e.1 e.2) s := by
  rw [namedItems_resolveItems, List.foldlM_map]
  simp only [h]

theorem require_map (k : String → Json → Json) (entries : List (String × Json)) (name : String) :
    require (entries.map fun e => (e.1, k e.1 e.2)) name = require entries name := by
  rw [require, require, Entries.contains, Entries.contains, Entries.get?_map, Option.isSome_map]

theorem require_resolveEntries (entries : List (String × Json)) (name : String) :
    require (resolveEntries entries) name = require entries name := by
  rw [resolveEntries_eq_map, require_map]

/-! ## The states that hold no machine -/

namespace Transition

/-- A transition is read of two entries, whatever the others hold. -/
theorem read_map {k : String → Json → Json}
    (h : ∀ name value, name = "Next" ∨ name = "End" →
      k name value = value.resolveReferences ∨ k name value = value)
    (entries : List (String × Json)) :
    read (entries.map fun e => (e.1, k e.1 e.2)) = read entries := by
  have hfield (t : Transition) (name : String) (value : Json) :
      t.readField name (k name value) = t.readField name value := by
    unfold readField
    split
    · next hname =>
      rcases h name value (.inl hname) with heq | heq
      · rw [heq, readOptional_resolveReferences _ (readString_resolveReferences _)]
      · rw [heq]
    split
    · next hname =>
      rcases h name value (.inr hname) with heq | heq
      · rw [heq, readBoolean_resolveReferences]
      · rw [heq]
    · rfl
  rw [read, List.foldlM_map]
  simp only [hfield]
  rfl

theorem read_resolveEntries (entries : List (String × Json)) :
    read (resolveEntries entries) = read entries := by
  rw [resolveEntries_eq_map]
  refine read_map (k := resolvedValue) (fun name value hname => .inl ?_) entries
  refine resolvedValue_of_ne ?_ value
  rintro rfl
  exact absurd hname (by decide)

end Transition

namespace PassState

theorem readField_resolveReferences (s : PassState) (name : String) (value : Json) :
    (s.mapDocuments resolveReferences).readField name value.resolveReferences =
      mapDocuments resolveReferences <$> s.readField name value := by
  unfold readField
  simp only [readOptional_resolveReferences _ (readString_resolveReferences _),
    readPathField_resolveReferences, readDocument?_resolveReferences]
  split_ifs <;> simp only [map_bind, map_pure] <;> rfl

theorem read_resolveEntries (entries : List (String × Json)) :
    read (resolveEntries entries) = mapDocuments resolveReferences <$> read entries := by
  have hfold := foldlM_resolveEntries (fun _ _ => rfl) readField_resolveReferences entries blank
  simp only [read, Transition.read_resolveEntries, map_bind, map_pure]
  rw [show blank = blank.mapDocuments resolveReferences from rfl, hfold, bind_map_left]
  rfl

end PassState

namespace TaskState

/-- The value of a field of a Task state, its resource replaced where it is a reference. -/
def resolvedField (name : String) (value : Json) : Json :=
  match replacement? name value with
  | some function => .string function
  | none => value

theorem readField_resolveReferences (s : TaskState) (name : String) (value : Json) :
    (s.mapDocuments resolveReferences).readField name value.resolveReferences =
      mapDocuments resolveReferences <$> s.readField name value := by
  unfold readField
  simp only [readOptional_resolveReferences _ (readString_resolveReferences _),
    readOptional_resolveReferences _ (readCount_resolveReferences _ _),
    readString_resolveReferences, readPathField_resolveReferences,
    readDocument?_resolveReferences]
  split_ifs <;> simp only [map_bind, map_pure] <;> rfl

/-- The resource is replaced in both; the parameters are changed. -/
theorem readField_resolvedValue (s : TaskState) (name : String) (value : Json) :
    (s.mapDocuments resolveReferences).readField name (resolvedValue name value) =
      mapDocuments resolveReferences <$> s.readField name (resolvedField name value) := by
  rw [resolvedValue, resolvedField]
  cases hreference : replacement? name value with
  -- what is no reference may still hold some, which only the parameters keep
  | none => exact readField_resolveReferences s name value
  | some function =>
    obtain rfl := eq_of_replacement? hreference
    rfl

theorem read_resolveEntries (entries : List (String × Json)) :
    read (resolveEntries entries) = mapDocuments resolveReferences <$>
      read (entries.map fun e => (e.1, resolvedField e.1 e.2)) := by
  have hfold := foldlM_map_entries readField_resolvedValue entries blank
  have htransition : Transition.read (entries.map fun e => (e.1, resolvedField e.1 e.2)) =
      Transition.read entries := by
    refine Transition.read_map (k := resolvedField) (fun name value hname => .inr ?_) entries
    rw [resolvedField, replacement?_of_ne]
    rintro rfl
    exact absurd hname (by decide)
  simp only [read, Transition.read_resolveEntries, htransition, require_resolveEntries,
    require_map, map_bind, map_pure]
  rw [resolveEntries_eq_map, show blank = blank.mapDocuments resolveReferences from rfl, hfold,
    bind_map_left]
  rfl

end TaskState

namespace WaitState

theorem readField_resolveReferences (s : WaitState) (name : String) (value : Json) :
    s.readField name value.resolveReferences = s.readField name value := by
  unfold readField
  simp only [readOptional_resolveReferences _ (readString_resolveReferences _),
    readOptional_resolveReferences _ (readCount_resolveReferences _ _),
    readPathField_resolveReferences]

theorem read_resolveEntries (entries : List (String × Json)) :
    read (resolveEntries entries) = read entries := by
  rw [read, read, Transition.read_resolveEntries,
    foldlM_resolveEntries_eq (fun _ _ => rfl) readField_resolveReferences]

end WaitState

namespace ChoiceState

theorem readRules_resolveReferences (value : Json) :
    readRules value.resolveReferences = readRules value := by
  rw [readRules, readRules, readItems_resolveReferences, bind_map_left]
  refine congrArg _ (funext fun items => ?_)
  rw [List.mapM_map]
  refine mapM_congr fun item _ => ?_
  cases item with
  | object entries =>
    exact congrArg (Except.mapError RecordError.rule) (Rule.read_resolveReferences _)
  | _ => rfl

theorem readField_resolveReferences (s : ChoiceState) (name : String) (value : Json) :
    s.readField name value.resolveReferences = s.readField name value := by
  unfold readField
  simp only [readOptional_resolveReferences _ (readString_resolveReferences _),
    readPathField_resolveReferences, readRules_resolveReferences]

theorem read_resolveEntries (entries : List (String × Json)) :
    read (resolveEntries entries) = read entries := by
  rw [read, read, readFields, readFields, require_resolveEntries,
    foldlM_resolveEntries_eq (fun _ _ => rfl) readField_resolveReferences]

theorem readPositional_resolveItems (items : List Json) :
    readPositional (resolveItems items) = readPositional items := by
  rw [readPositional, readPositional, readFields, readFields,
    foldlM_namedItems_eq readField_resolveReferences, resolveItems_eq_map, List.length_map]

end ChoiceState

namespace FailState

theorem readField_resolveReferences (s : FailState) (name : String) (value : Json) :
    s.readField name value.resolveReferences = s.readField name value := by
  unfold readField
  simp only [readOptional_resolveReferences _ (readString_resolveReferences _)]

theorem read_resolveEntries (entries : List (String × Json)) :
    read (resolveEntries entries) = read entries :=
  foldlM_resolveEntries_eq (fun _ _ => rfl) readField_resolveReferences entries blank

theorem readPositional_resolveItems (items : List Json) :
    readPositional (resolveItems items) = readPositional items := by
  rw [readPositional, readPositional, read, read,
    foldlM_namedItems_eq readField_resolveReferences, resolveItems_eq_map, List.length_map]

end FailState

namespace SucceedState

theorem readField_resolveReferences (s : SucceedState) (name : String) (value : Json) :
    s.readField name value.resolveReferences = s.readField name value := by
  unfold readField
  simp only [readOptional_resolveReferences _ (readString_resolveReferences _),
    readPathField_resolveReferences]

theorem read_resolveEntries (entries : List (String × Json)) :
    read (resolveEntries entries) = read entries :=
  foldlM_resolveEntries_eq (fun _ _ => rfl) readField_resolveReferences entries blank

theorem readPositional_resolveItems (items : List Json) :
    readPositional (resolveItems items) = readPositional items := by
  rw [readPositional, readPositional, read, read,
    foldlM_namedItems_eq readField_resolveReferences, resolveItems_eq_map, List.length_map]

end SucceedState

namespace ParallelState

theorem readField_resolveReferences (s : ParallelState) (name : String) (value : Json) :
    (s.mapDocuments resolveReferences).readField name value.resolveReferences =
      mapDocuments resolveReferences <$> s.readField name value := by
  unfold readField
  simp only [readOptional_resolveReferences _ (readString_resolveReferences _),
    readItems_resolveReferences]
  split_ifs <;> simp only [map_bind, bind_map_left, map_pure] <;> rfl

theorem read_resolveEntries (entries : List (String × Json)) :
    read (resolveEntries entries) = mapDocuments resolveReferences <$> read entries := by
  have hfold := foldlM_resolveEntries (fun _ _ => rfl) readField_resolveReferences entries blank
  simp only [read, Transition.read_resolveEntries, map_bind, map_pure]
  rw [show blank = blank.mapDocuments resolveReferences from rfl, hfold, bind_map_left]
  rfl

end ParallelState

/-! ## Settings and fields of what holds machines -/

namespace MapSettings

theorem readField_resolveReferences (s : MapSettings) (name : String) (value : Json) :
    (s.mapDocuments resolveReferences).readField name value.resolveReferences =
      mapDocuments resolveReferences <$> s.readField name value := by
  unfold readField
  simp only [readOptional_resolveReferences _ (readString_resolveReferences _),
    readCount_resolveReferences, readPathField_resolveReferences, readDocument?_resolveReferences]
  split_ifs <;> simp only [map_bind, map_pure] <;> rfl

end MapSettings

namespace Machine

theorem readPlainField_resolveReferences (m : Machine) (name : String) (value : Json) :
    (m.mapDocuments resolveReferences).readPlainField name value.resolveReferences =
      mapDocuments resolveReferences <$> m.readPlainField name value := by
  cases m
  unfold readPlainField
  simp only [readOptional_resolveReferences _ (readString_resolveReferences _),
    readOptional_resolveReferences _ (readCount_resolveReferences _ _),
    readString_resolveReferences]
  split_ifs <;> simp only [map_bind, map_pure] <;> rfl

end Machine

end StateFlow
