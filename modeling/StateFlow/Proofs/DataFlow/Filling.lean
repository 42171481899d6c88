import StateFlow.Proofs.DataFlow.Template
import StateFlow.Proofs.Traversal

/-!
# Filling a template

The entries `"key.$"` that a walk through the objects and arrays of a template comes to are its
selections (`Template.selections`).  They decide about filling.  A template can be filled exactly
when each of its selections has a value (`exists_fill_iff`), and nothing else of the payload and the
context object goes into what it is filled with (`fill_congr_of_selections`).

What it is filled with is said by rules: the template again, node by node, with the values of the
selections in their places (`Template.Fills`).  An entry of an object may replace another one of the
same name, and then the rules do not say what is left; they do where no object produces a name twice
(`fill_eq_ok_iff`).

## Main definitions

* `Template.selections`: the entries of a template that select values
* `Template.Unambiguous`: no object produces a name twice
* `Template.Fills`: a document is what a template stands for

## Main results

* `Template.fill_congr_of_selections`: equal selections are filled alike
* `Template.effectiveInput_iff_fills`: which templates can be filled, and with what
-/

namespace StateFlow.Template

/-! ## The selections of a template -/

mutual

/-- The entries `"key.$"` of a template in order, at whatever depth of objects and arrays.  What
stands in such an entry is not walked into. -/
def selections : Json → List (String × Json)
  | .object entries => entriesSelections entries
  | .array items => itemsSelections items
  | _ => []

/-- The same for the items of an array. -/
def itemsSelections : List Json → List (String × Json)
  | [] => []
  | x :: xs => selections x ++ itemsSelections xs

/-- The same for the entries of an object. -/
def entriesSelections : List (String × Json) → List (String × Json)
  | [] => []
  | (key, template) :: rest =>
    (match filledName? key with
      | some _ => [(key, template)]
      | none => selections template) ++ entriesSelections rest

end

/-- The selections in one entry of an object: itself, or those of its template. -/
def entrySelections (e : String × Json) : List (String × Json) :=
  match filledName? e.1 with
  | some _ => [e]
  | none => selections e.2

theorem selections_object (entries : List (String × Json)) :
    selections (.object entries) = entries.flatMap entrySelections := by
  rw [selections]
  induction entries with
  | nil => rfl
  | cons e rest ih =>
    rw [entriesSelections, ih, List.flatMap_cons]
    rfl

theorem selections_array (items : List Json) :
    selections (.array items) = items.flatMap selections := by
  rw [selections]
  induction items with
  | nil => rfl
  | cons x xs ih => rw [itemsSelections, ih, List.flatMap_cons]

theorem selections_scalar {document : Json} (hentries : document.entries? = none)
    (hitems : document.items? = none) : selections document = [] := by
  cases document with
  | object entries => cases hentries
  | array items => cases hitems
  | _ => rfl

theorem entrySelections_of_filledName? {e : String × Json} {name : String}
    (h : filledName? e.1 = some name) : entrySelections e = [e] := by
  rw [entrySelections, h]

theorem entrySelections_of_literal {e : String × Json} (h : filledName? e.1 = none) :
    entrySelections e = selections e.2 := by
  rw [entrySelections, h]

/-! ## What a template stands for -/

/-- No object, at whatever depth, has two entries that produce the same name. -/
inductive Unambiguous : Json → Prop
  | object {entries : List (String × Json)}
      (hnames : (entries.map fun e => producedName e.1).Nodup)
      (h : ∀ e ∈ entries, Unambiguous e.2) : Unambiguous (.object entries)
  | array {items : List Json} (h : ∀ x ∈ items, Unambiguous x) : Unambiguous (.array items)
  | scalar {document : Json} (hentries : document.entries? = none)
      (hitems : document.items? = none) : Unambiguous document

/-- The field that an entry of a template stands for, where `fills` says what templates stand
for. -/
inductive EntryFills (payload context : Json) (fills : Json → Json → Prop) :
    String × Json → String × Json → Prop
  /-- The value of the expression, as it is. -/
  | selected {key name expression : String} {value : Json} (hkey : filledName? key = some name)
      (hvalue : resolve payload context expression = .ok value) :
      EntryFills payload context fills (key, .string expression) (name, value)
  | literal {key : String} {template value : Json} (hkey : filledName? key = none)
      (h : fills template value) : EntryFills payload context fills (key, template) (key, value)

/-- A document is what a template stands for: the same document but for its selections. -/
inductive Fills (payload context : Json) : Json → Json → Prop
  /-- An object has a field for each entry, in the same order. -/
  | object {entries fields : List (String × Json)}
      (h : List.Forall₂ (EntryFills payload context (Fills payload context)) entries fields) :
      Fills payload context (.object entries) (.object fields)
  /-- An array has a value for each item, in the same order. -/
  | array {items values : List Json} (h : List.Forall₂ (Fills payload context) items values) :
      Fills payload context (.array items) (.array values)
  | scalar {document : Json} (hentries : document.entries? = none)
      (hitems : document.items? = none) : Fills payload context document document

variable {payload context : Json}

theorem EntryFills.congr {fills fills' : Json → Json → Prop} {e : String × Json}
    (h : ∀ value, fills e.2 value ↔ fills' e.2 value) (field : String × Json) :
    EntryFills payload context fills e field ↔ EntryFills payload context fills' e field := by
  constructor
  · rintro (⟨hkey, hvalue⟩ | ⟨hkey, hfills⟩)
    · exact .selected hkey hvalue
    · exact .literal hkey ((h _).mp hfills)
  · rintro (⟨hkey, hvalue⟩ | ⟨hkey, hfills⟩)
    · exact .selected hkey hvalue
    · exact .literal hkey ((h _).mpr hfills)

/-- A template without selections stands for itself. -/
theorem fills_self {template : Json} (h : selections template = []) :
    Fills payload context template template := by
  induction template using Json.induction with
  | object entries ih =>
    rw [selections_object, List.flatMap_eq_nil_iff] at h
    refine .object (List.forall₂_same.mpr fun e he => ?_)
    have hnone := h e he
    cases hkey : filledName? e.1 with
    | some name =>
      rw [entrySelections_of_filledName? hkey] at hnone
      cases hnone
    | none =>
      rw [entrySelections_of_literal hkey] at hnone
      exact .literal hkey (ih e he hnone)
  | array items ih =>
    rw [selections_array, List.flatMap_eq_nil_iff] at h
    exact .array (List.forall₂_same.mpr fun x hx => ih x hx (h x hx))
  | scalar document hentries hitems => exact .scalar hentries hitems

/-! ## Filling as working through lists -/

/-- The field that an entry gives. -/
def fillEntry (payload context : Json) (e : String × Json) : Except Fault (String × Json) :=
  (producedName e.1, ·) <$> entryValue payload context e.1 e.2

theorem fillEntries_eq_mapM (entries : List (String × Json)) :
    fillEntries payload context entries = entries.mapM (fillEntry payload context) := by
  induction entries with
  | nil =>
    rw [fillEntries]
    rfl
  | cons e rest ih =>
    rw [fillEntries_cons, List.mapM_cons, ih, fillEntry]
    cases entryValue payload context e.1 e.2 <;> rfl

theorem fillItems_eq_mapM (items : List Json) :
    fillItems payload context items = items.mapM (fill payload context) := by
  induction items with
  | nil =>
    rw [fillItems]
    rfl
  | cons x xs ih => rw [fillItems, List.mapM_cons, ih]

theorem fill_object_eq (entries : List (String × Json)) :
    fill payload context (.object entries) = (fun fields => .object (Entries.ofPairs fields)) <$>
      entries.mapM (fillEntry payload context) := by
  rw [fill, fillEntries_eq_mapM]
  rfl

theorem fill_array_eq (items : List Json) :
    fill payload context (.array items) = .array <$> items.mapM (fill payload context) := by
  rw [fill, fillItems_eq_mapM]
  rfl

theorem fill_scalar {document : Json} (hentries : document.entries? = none)
    (hitems : document.items? = none) : fill payload context document = .ok document := by
  cases document with
  | object entries => cases hentries
  | array items => cases hitems
  | _ => rfl

theorem select_eq_ok_iff {key : String} {source value : Json} :
    select payload context key source = .ok value ↔
      ∃ expression, source = .string expression ∧
        resolve payload context expression = .ok value := by
  cases source with
  | string expression => simp [select]
  | _ => simp [select]

theorem fillEntry_eq_ok_iff (e field : String × Json) :
    fillEntry payload context e = .ok field ↔ EntryFills payload context
      (fun template value => fill payload context template = .ok value) e field := by
  obtain ⟨key, template⟩ := e
  rw [fillEntry, map_eq_ok_iff]
  constructor
  · rintro ⟨value, hvalue, rfl⟩
    cases hkey : filledName? key with
    | some name =>
      rw [entryValue, hkey] at hvalue
      obtain ⟨expression, rfl, hvalue⟩ := select_eq_ok_iff.mp hvalue
      rw [producedName_of_filledName? hkey]
      exact .selected hkey hvalue
    | none =>
      rw [entryValue_of_literal hkey] at hvalue
      rw [producedName_of_literal hkey]
      exact .literal hkey hvalue
  · rintro (⟨hkey, hvalue⟩ | ⟨hkey, hvalue⟩)
    · rw [entryValue_of_filledName? hkey, producedName_of_filledName? hkey]
      exact ⟨_, hvalue, rfl⟩
    · rw [entryValue_of_literal hkey, producedName_of_literal hkey]
      exact ⟨_, hvalue, rfl⟩

/-! ## Which templates can be filled, and with what -/

/-- **A template can be filled when each of its selections has a value.** -/
theorem exists_fill_iff (template : Json) :
    (∃ output, fill payload context template = .ok output) ↔
      ∀ e ∈ selections template, ∃ value, select payload context e.1 e.2 = .ok value := by
  induction template using Json.induction with
  | object entries ih =>
    have hentry : ∀ e ∈ entries, (∃ field, fillEntry payload context e = .ok field) ↔
        ∀ s ∈ entrySelections e, ∃ value, select payload context s.1 s.2 = .ok value := by
      intro e he
      rw [fillEntry, exists_map_eq_ok_iff]
      cases hkey : filledName? e.1 with
      | some name =>
        rw [entrySelections_of_filledName? hkey, List.forall_mem_singleton, entryValue, hkey]
      | none =>
        rw [entrySelections_of_literal hkey, entryValue_of_literal hkey]
        exact ih e he
    rw [fill_object_eq, exists_map_eq_ok_iff, exists_mapM_eq_ok_iff, selections_object,
      List.forall_mem_flatMap]
    exact forall₂_congr hentry
  | array items ih =>
    rw [fill_array_eq, exists_map_eq_ok_iff, exists_mapM_eq_ok_iff, selections_array,
      List.forall_mem_flatMap]
    exact forall₂_congr ih
  | scalar document hentries hitems =>
    rw [fill_scalar hentries hitems, selections_scalar hentries hitems]
    constructor
    · intro _ e he
      exact (List.not_mem_nil he).elim
    · intro _
      exact ⟨document, rfl⟩

/-- **An unambiguous template is filled with what it stands for.** -/
theorem fill_eq_ok_iff {template : Json} (h : Unambiguous template) (output : Json) :
    fill payload context template = .ok output ↔ Fills payload context template output := by
  induction h generalizing output with
  | @object entries hnames _ ih =>
    have hfields : ∀ fields, entries.mapM (fillEntry payload context) = .ok fields ↔
        List.Forall₂ (EntryFills payload context (Fills payload context)) entries fields := by
      intro fields
      rw [mapM_eq_ok_iff]
      exact forall₂_congr_of_mem fun e he field =>
        (fillEntry_eq_ok_iff e field).trans (EntryFills.congr (ih e he) field)
    have hofPairs : ∀ fields, entries.mapM (fillEntry payload context) = .ok fields →
        Entries.ofPairs fields = fields := by
      intro fields h
      rw [← fillEntries_eq_mapM] at h
      exact Entries.ofPairs_of_nodup (keys_fillEntries entries fields h ▸ hnames)
    rw [fill_object_eq, map_eq_ok_iff]
    constructor
    · rintro ⟨fields, h, rfl⟩
      rw [hofPairs fields h]
      exact .object ((hfields fields).mp h)
    · rintro (hforall | _ | ⟨hentries, _⟩)
      · have h := (hfields _).mpr hforall
        exact ⟨_, h, congrArg _ (hofPairs _ h)⟩
      · cases hentries
  | @array items _ ih =>
    rw [fill_array_eq, map_eq_ok_iff]
    simp only [mapM_eq_ok_iff, forall₂_congr_of_mem ih]
    constructor
    · rintro ⟨values, h, rfl⟩
      exact .array h
    · rintro (_ | h | ⟨_, hitems⟩)
      · exact ⟨_, h, rfl⟩
      · cases hitems
  | scalar hentries hitems =>
    rw [fill_scalar hentries hitems]
    constructor
    · rintro ⟨⟩
      exact .scalar hentries hitems
    · rintro (_ | _ | _)
      · cases hentries
      · cases hitems
      · rfl

variable {payload' context' : Json}

/-- What an entry gives depends on its selections only, if that is so of its template. -/
theorem entryValue_congr {e : String × Json}
    (hfill : (∀ s ∈ selections e.2,
        select payload' context' s.1 s.2 = select payload context s.1 s.2) →
      fill payload' context' e.2 = fill payload context e.2)
    (h : ∀ s ∈ entrySelections e,
      select payload' context' s.1 s.2 = select payload context s.1 s.2) :
    entryValue payload' context' e.1 e.2 = entryValue payload context e.1 e.2 := by
  cases hkey : filledName? e.1 with
  | some name =>
    rw [entrySelections_of_filledName? hkey, List.forall_mem_singleton] at h
    rw [entryValue, entryValue, hkey, h]
  | none =>
    rw [entrySelections_of_literal hkey] at h
    rw [entryValue_of_literal hkey, entryValue_of_literal hkey, hfill h]

/-- **What a template is filled with depends on the values of its selections only.** -/
theorem fill_congr_of_selections {template : Json}
    (h : ∀ e ∈ selections template,
      select payload' context' e.1 e.2 = select payload context e.1 e.2) :
    fill payload' context' template = fill payload context template := by
  induction template using Json.induction with
  | object entries ih =>
    rw [selections_object, List.forall_mem_flatMap] at h
    have hentry : ∀ e ∈ entries,
        fillEntry payload' context' e = fillEntry payload context e := by
      intro e he
      rw [fillEntry, fillEntry, entryValue_congr (ih e he) (h e he)]
    rw [fill_object_eq, fill_object_eq, mapM_congr hentry]
  | array items ih =>
    rw [selections_array, List.forall_mem_flatMap] at h
    rw [fill_array_eq, fill_array_eq, mapM_congr fun x hx => ih x hx (h x hx)]
  | scalar document hentries hitems => rw [fill_scalar hentries hitems, fill_scalar hentries hitems]

/-- **Which templates can be filled, and with what.**  A template in which no object produces a name
twice can be filled exactly when each of its selections is an expression that has a value.  Its
output is then the template again, node by node, with these values in place of the selections; a
template without selections is its own output. -/
theorem effectiveInput_iff_fills {template : Json} (h : Unambiguous template)
    (payload context : Json) :
    ((∃ output, effectiveInput payload context (some template) = .ok output) ↔
      ∀ e ∈ selections template, ∃ expression value,
        e.2 = .string expression ∧ resolve payload context expression = .ok value) ∧
    (∀ output, effectiveInput payload context (some template) = .ok output ↔
      Fills payload context template output) ∧
    (selections template = [] →
      effectiveInput payload context (some template) = .ok template) := by
  have hfills : ∀ output, effectiveInput payload context (some template) = .ok output ↔
      Fills payload context template output := fill_eq_ok_iff h
  refine ⟨?_, hfills, fun hnone => (hfills template).mpr (fills_self hnone)⟩
  rw [effectiveInput, exists_fill_iff]
  simp only [select_eq_ok_iff]
  exact ⟨fun h e he => exists_comm.mp (h e he), fun h e he => exists_comm.mp (h e he)⟩

/-- A document that looks like a template itself. -/
def templateLike : Json := .object [("y.$", .string "$.x")]

/-- A template with one selection inside an array and one beside it. -/
def selectingTwice : Json := .object
  [("items", .array [.object [("a.$", .string "$.x")], .null]), ("b.$", .string "$$"),
    ("c", .boolean true)]

/-- What `selectingTwice` stands for where `$.x` is `templateLike`. -/
def selectedTwice : Json := .object
  [("items", .array [.object [("a", templateLike)], .null]), ("b", .string "context"),
    ("c", .boolean true)]

/-- A value that looks like a template is not filled again. -/
theorem effectiveInput_iff_fills_twice :
    Unambiguous selectingTwice ∧
    selections selectingTwice = [("a.$", .string "$.x"), ("b.$", .string "$$")] ∧
    (∃ output, effectiveInput (.object [("x", templateLike)]) (.string "context")
      (some selectingTwice) = .ok output) ∧
    Fills (.object [("x", templateLike)]) (.string "context") selectingTwice selectedTwice ∧
    selections templateLike ≠ [] ∧ selections (.array [.null]) = [] ∧
    effectiveInput templateLike .null (some (.array [.null])) = .ok (.array [.null]) := by
  have hitem : Unambiguous (.object [("a.$", .string "$.x")]) :=
    .object (by decide) (List.forall_mem_singleton.mpr (.scalar rfl rfl))
  have hitems : Unambiguous (.array [.object [("a.$", .string "$.x")], .null]) :=
    .array (List.forall_mem_cons.mpr ⟨hitem, List.forall_mem_singleton.mpr (.scalar rfl rfl)⟩)
  have htemplate : Unambiguous selectingTwice :=
    .object (by decide) (List.forall_mem_cons.mpr ⟨hitems, List.forall_mem_cons.mpr
      ⟨.scalar rfl rfl, List.forall_mem_singleton.mpr (.scalar rfl rfl)⟩⟩)
  have hselections : selections selectingTwice =
      [("a.$", .string "$.x"), ("b.$", .string "$$")] := rfl
  obtain ⟨hsome, hfills, -⟩ := effectiveInput_iff_fills htemplate
    (.object [("x", templateLike)]) (.string "context")
  have hliteral : Unambiguous (.array [.null]) :=
    .array (List.forall_mem_singleton.mpr (.scalar rfl rfl))
  obtain ⟨-, -, hself⟩ := effectiveInput_iff_fills hliteral templateLike .null
  refine ⟨htemplate, hselections, hsome.mpr ?_, (hfills selectedTwice).mp rfl, nofun, rfl,
    hself rfl⟩
  rw [hselections]
  exact List.forall_mem_cons.mpr ⟨⟨"$.x", templateLike, rfl, rfl⟩,
    List.forall_mem_singleton.mpr ⟨"$$", .string "context", rfl, rfl⟩⟩

end StateFlow.Template
