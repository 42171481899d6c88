import StateFlow.DataFlow.Template
import StateFlow.Proofs.Outcome

/-!
# What a template comes to

A filled template is followed from the outside in.  Each object of the template comes to an object,
at the same place, in which each entry `"key.$"` gives `key` the value that its expression selects
(`Template.field_of_effectiveInput`).

Two entries of one object can produce the same name, `"key.$"` and `"key"`.  Then the last one
counts, whichever it is, and nothing of the other is left; where the other is an object, that
includes all inside it.  So what is said here is said of the parts of a template that no later entry
replaces.

## Main definitions

* `Json.Step`, `Json.at?`: the parts of a document at any depth
* `Template.LastOf`: the entry that counts of those that produce a name
* `Template.Keeps`: the parts of a template that count

## Main results

* `Template.at?_of_keeps`: a part that counts is filled at its place
* `Template.field_of_effectiveInput`: what the entries of an object give
-/

namespace StateFlow

/-! ## Parts of documents -/

namespace Json

/-- A step from a document to a part of it. -/
inductive Step where
  | name (name : String)
  | item (index : Nat)
deriving DecidableEq, Repr

/-- The part of a document that some steps lead to. -/
def at? : Json → List Step → Option Json
  | document, [] => some document
  | object entries, .name name :: place => (Entries.get? entries name).bind (at? · place)
  | array items, .item index :: place => items[index]?.bind (at? · place)
  | _, _ :: _ => none

theorem at?_nil (document : Json) : document.at? [] = some document := by
  cases document <;> rfl

end Json

namespace Template

/-! ## The entry that counts -/

/-- No later entry of the object produces the same name. -/
def LastOf (entries : List (String × Json)) (key : String) (part : Json) : Prop :=
  ∃ before after, entries = before ++ (key, part) :: after ∧
    ∀ e ∈ after, producedName e.1 ≠ producedName key

theorem exists_lastOf {entries : List (String × Json)} {key : String} {part : Json}
    (h : (key, part) ∈ entries) :
    ∃ last standing, LastOf entries last standing ∧ producedName last = producedName key := by
  induction entries generalizing key part with
  | nil => cases h
  | cons e rest ih =>
    by_cases hlater : ∃ e' ∈ rest, producedName e'.1 = producedName key
    · obtain ⟨e', he', hname⟩ := hlater
      obtain ⟨last, standing, ⟨before, after, rfl, hafter⟩, hlast⟩ := ih he'
      exact ⟨last, standing, ⟨e :: before, after, rfl, hafter⟩, hlast.trans hname⟩
    · rcases List.mem_cons.mp h with rfl | hrest
      · exact ⟨key, part, ⟨[], rest, rfl, fun e' he' hname => hlater ⟨e', he', hname⟩⟩, rfl⟩
      · exact (hlater ⟨_, hrest, rfl⟩).elim

/-- The parts of a template, each with its place, that no later entry replaces.  Below an entry
`"key.$"` the template has no parts. -/
inductive Keeps : Json → List Json.Step → Json → Prop
  | here (template : Json) : Keeps template [] template
  | entry {entries : List (String × Json)} {key : String} {inner part : Json}
      {place : List Json.Step} (hkey : filledName? key = none) (hlast : LastOf entries key inner)
      (h : Keeps inner place part) : Keeps (.object entries) (.name key :: place) part
  | item {items : List Json} {index : Nat} {inner part : Json} {place : List Json.Step}
      (hitem : items[index]? = some inner) (h : Keeps inner place part) :
      Keeps (.array items) (.item index :: place) part

/-! ## Filling -/

/-- The value that an entry gives. -/
def entryValue (payload context : Json) (key : String) (template : Json) : Except Fault Json :=
  match filledName? key with
  | some _ => select payload context key template
  | none => fill payload context template

variable {payload context : Json}

theorem producedName_of_filledName? {key name : String} (h : filledName? key = some name) :
    producedName key = name := by
  rw [producedName, h, Option.getD_some]

theorem producedName_of_literal {key : String} (h : filledName? key = none) :
    producedName key = key := by
  rw [producedName, h, Option.getD_none]

theorem entryValue_of_filledName? {key name : String} (h : filledName? key = some name)
    (expression : String) :
    entryValue payload context key (.string expression) = resolve payload context expression := by
  rw [entryValue, h, select]

theorem entryValue_of_literal {key : String} (h : filledName? key = none) (template : Json) :
    entryValue payload context key template = fill payload context template := by
  rw [entryValue, h]

theorem fillEntries_cons (key : String) (template : Json) (rest : List (String × Json)) :
    fillEntries payload context ((key, template) :: rest) = (do
      let value ← entryValue payload context key template
      return (producedName key, value) :: (← fillEntries payload context rest)) := by
  rw [fillEntries, entryValue]
  cases filledName? key <;> rfl

theorem keys_fillEntries (entries : List (String × Json)) :
    Yields (fun pairs => Entries.keys pairs = entries.map fun e => producedName e.1)
      (fillEntries payload context entries) := by
  induction entries with
  | nil =>
    rw [fillEntries]
    exact .ok rfl
  | cons e rest ih =>
    rw [fillEntries_cons]
    exact .bind fun _ _ => .bind fun pairs hpairs => .ok (congrArg _ (ih pairs hpairs))

/-- An entry gives its value, between what the entries before and after it give. -/
theorem fillEntries_append_cons (before : List (String × Json)) (key : String) (part : Json)
    (after : List (String × Json)) :
    Yields (fun pairs => ∃ first value later, pairs = first ++ (producedName key, value) :: later ∧
        entryValue payload context key part = .ok value ∧
        Entries.keys later = after.map fun e => producedName e.1)
      (fillEntries payload context (before ++ (key, part) :: after)) := by
  induction before with
  | nil =>
    rw [List.nil_append, fillEntries_cons]
    exact .bind fun value hvalue => .bind fun later hlater =>
      .ok ⟨[], value, later, rfl, hvalue, keys_fillEntries after later hlater⟩
  | cons e before ih =>
    rw [List.cons_append, fillEntries_cons]
    refine .bind fun value _ => .bind fun pairs hpairs => .ok ?_
    obtain ⟨first, given, later, rfl, hgiven⟩ := ih pairs hpairs
    exact ⟨(producedName e.1, value) :: first, given, later, rfl, hgiven⟩

/-- An object comes to an object, in which the last entry of a name gives its value. -/
theorem fill_object (entries : List (String × Json)) :
    Yields (fun output => ∃ fields, output = .object fields ∧ ∀ key part, LastOf entries key part →
        ∃ value, entryValue payload context key part = .ok value ∧
          Entries.get? fields (producedName key) = some value)
      (fill payload context (.object entries)) := by
  rw [fill]
  refine .bind fun pairs hpairs => .ok ⟨_, rfl, ?_⟩
  rintro key part ⟨before, after, rfl, hafter⟩
  obtain ⟨first, value, later, rfl, hvalue, hkeys⟩ :=
    fillEntries_append_cons before key part after pairs hpairs
  refine ⟨value, hvalue, Entries.get?_ofPairs_append_cons first _ value fun e he hname => ?_⟩
  -- a pair of this name further on would come from a later entry that produces it
  obtain ⟨e', he', hname'⟩ : ∃ e' ∈ after, producedName e'.1 = e.1 := by
    rw [← List.mem_map, ← hkeys]
    exact List.mem_map_of_mem he
  exact hafter e' he' (hname'.trans hname)

theorem fillItems_getElem? (items : List Json) :
    Yields (fun values => ∀ (index : Nat) inner, items[index]? = some inner →
        ∃ value, fill payload context inner = .ok value ∧ values[index]? = some value)
      (fillItems payload context items) := by
  induction items with
  | nil =>
    rw [fillItems]
    exact .ok nofun
  | cons x xs ih =>
    rw [fillItems]
    refine .bind fun value hvalue => .bind fun values hvalues => .ok fun index inner hinner => ?_
    cases index with
    | zero => exact ⟨value, Option.some.inj hinner ▸ hvalue, rfl⟩
    | succ index => exact ih values hvalues index inner hinner

/-- **A part of a template that counts is filled at its place.** -/
theorem at?_of_keeps {template part : Json} {place : List Json.Step}
    (h : Keeps template place part) :
    Yields (fun output => ∃ value, fill payload context part = .ok value ∧
      output.at? place = some value) (fill payload context template) := by
  induction h with
  | here template => exact fun output h => ⟨output, h, output.at?_nil⟩
  | entry hkey hlast _ ih =>
    intro output houtput
    obtain ⟨fields, rfl, hfields⟩ := fill_object _ output houtput
    obtain ⟨inner, hinner, hget⟩ := hfields _ _ hlast
    rw [entryValue_of_literal hkey] at hinner
    obtain ⟨value, hvalue, hat⟩ := ih inner hinner
    refine ⟨value, hvalue, ?_⟩
    rw [producedName_of_literal hkey] at hget
    rw [Json.at?, hget, Option.bind_some, hat]
  | item hitem _ ih =>
    rw [fill]
    refine .bind fun values hvalues => .ok ?_
    obtain ⟨inner, hinner, hget⟩ := fillItems_getElem? _ values hvalues _ _ hitem
    obtain ⟨value, hvalue, hat⟩ := ih inner hinner
    refine ⟨value, hvalue, ?_⟩
    rw [Json.at?, hget, Option.bind_some, hat]

/-- **What the entries of an object give.**  Wherever in a template the object stands, if no later
entry replaces it, an object stands at its place of the output.  There an entry `"key.$"` gives
`key` the value of its expression if no later entry gives `key` another one.  Whatever produces a
name, the last entry that does gives the value. -/
theorem field_of_effectiveInput {template output : Json} {place : List Json.Step}
    {entries : List (String × Json)}
    (h : effectiveInput payload context (some template) = .ok output)
    (hobject : Keeps template place (.object entries)) :
    ∃ fields, output.at? place = some (.object fields) ∧
      (∀ key expression name value, LastOf entries key (.string expression) →
        filledName? key = some name → resolve payload context expression = .ok value →
          Entries.get? fields name = some value) ∧
      ∀ key part, (key, part) ∈ entries → ∃ last standing value, LastOf entries last standing ∧
        producedName last = producedName key ∧
        entryValue payload context last standing = .ok value ∧
        Entries.get? fields (producedName key) = some value := by
  obtain ⟨filled, hfilled, hat⟩ := at?_of_keeps hobject output h
  obtain ⟨fields, rfl, hfields⟩ := fill_object entries filled hfilled
  refine ⟨fields, hat, ?_, ?_⟩
  · intro key expression name value hlast hname hvalue
    obtain ⟨given, hgiven, hget⟩ := hfields key _ hlast
    rw [entryValue_of_filledName? hname, hvalue] at hgiven
    rw [producedName_of_filledName? hname] at hget
    rw [hget, Except.ok.inj hgiven]
  · intro key part hmem
    obtain ⟨last, standing, hlast, hname⟩ := exists_lastOf hmem
    obtain ⟨value, hvalue, hget⟩ := hfields last standing hlast
    exact ⟨last, standing, value, hlast, hname, hvalue, hname ▸ hget⟩

/-- A payload of one field. -/
def payloadOfFive : Json := .object [("x", .ofNat 5)]

/-- The entries of an object in which `"a.$"` follows `"a"`. -/
def selecting : List (String × Json) := [("a", .ofNat 1), ("a.$", .string "$.x")]

/-- A document in an array in a field. -/
def inItems (document : Json) : Json := .object [("items", .array [document])]

/-- An object in an array: the selected value counts, as its entry is the last one. -/
theorem field_of_effectiveInput_nested :
    effectiveInput payloadOfFive .null (some (inItems (.object selecting))) =
      .ok (inItems (.object [("a", .ofNat 5)])) ∧
    Keeps (inItems (.object selecting)) [.name "items", .item 0] (.object selecting) ∧
    LastOf selecting "a.$" (.string "$.x") ∧ filledName? "a.$" = some "a" ∧
    resolve payloadOfFive .null "$.x" = .ok (.ofNat 5) ∧ ("a", .ofNat 1) ∈ selecting ∧
    ∃ fields, (inItems (.object [("a", .ofNat 5)])).at? [.name "items", .item 0] =
        some (.object fields) ∧
      Entries.get? fields "a" = some (.ofNat 5) ∧
      ∃ last standing value, LastOf selecting last standing ∧ producedName last = "a" ∧
        entryValue payloadOfFive .null last standing = .ok value ∧
        Entries.get? fields "a" = some value := by
  have hfilled : effectiveInput payloadOfFive .null (some (inItems (.object selecting))) =
      .ok (inItems (.object [("a", .ofNat 5)])) := rfl
  have hobject : Keeps (inItems (.object selecting)) [.name "items", .item 0]
      (.object selecting) :=
    .entry rfl ⟨[], [], rfl, nofun⟩ (.item rfl (.here _))
  have hlast : LastOf selecting "a.$" (.string "$.x") := ⟨[_], [], rfl, nofun⟩
  have hname : filledName? "a.$" = some "a" := rfl
  have hvalue : resolve payloadOfFive .null "$.x" = .ok (.ofNat 5) := rfl
  have hliteral : ("a", .ofNat 1) ∈ selecting := List.mem_cons_self
  obtain ⟨fields, hat, hselected, hstanding⟩ := field_of_effectiveInput hfilled hobject
  exact ⟨hfilled, hobject, hlast, hname, hvalue, hliteral, fields, hat,
    hselected _ _ _ _ hlast hname hvalue, hstanding _ _ hliteral⟩

/-- **A later entry replaces the selected value.**  Here `"a"` follows `"a.$"`. -/
theorem effectiveInput_replaced :
    filledName? "a.$" = some "a" ∧ resolve payloadOfFive .null "$.x" = .ok (.ofNat 5) ∧
      effectiveInput payloadOfFive .null
        (some (.object [("a.$", .string "$.x"), ("a", .ofNat 1)])) =
          .ok (.object [("a", .ofNat 1)]) ∧
      (Json.object [("a", .ofNat 1)]).at? [.name "a"] ≠ some (.ofNat 5) :=
  ⟨rfl, rfl, rfl, by simp [Json.at?, Entries.get?, Json.ofNat]⟩

end Template

end StateFlow
