import StateFlow.Proofs.Machine.Names
import StateFlow.Proofs.Manifest.Documents
import StateFlow.Proofs.Manifest.Literals

/-!
# The Task states that a definition writes

The states of a definition, the machines of its Map states and the fields of its Task states can be
looked up in the document by their names.  What is found there is what is read: a level that is
written is a level of the machine, and a Task state that is written is one of its tasks, with the
function that replaces its resource where that is a reference.

## Main definitions

* `Json.WritesLevel`: the definitions that a definition writes, at any depth of Map states
* `Json.WritesTask`: the Task states that a definition writes, with their resources

## Main results

* `foldlM_field`: a field is read of the one entry of its name
* `Json.WritesTask.exists_task`: a Task state that is written is a task of the machine
-/

namespace StateFlow

open Json

/-! ## A field of a record -/

/-- **A field is read of the one entry of its name**, where no other entry changes it. -/
theorem foldlM_field {σ β : Type} {readField : σ → String → Json → Except RecordError σ}
    {field : σ → β} {name : String}
    (hother : ∀ s n value, n ≠ name → Yields (fun s' => field s' = field s) (readField s n value))
    {entries : List (String × Json)} (hkeys : (Entries.keys entries).Nodup) {s s' : σ}
    (h : entries.foldlM (fun s e => readField s e.1 e.2) s = .ok s') :
    match Entries.get? entries name with
    | none => field s' = field s
    | some value => ∃ s₀ s₁, field s₀ = field s ∧ readField s₀ name value = .ok s₁ ∧
        field s' = field s₁ := by
  induction entries generalizing s with
  | nil =>
    cases h
    rfl
  | cons e entries ih =>
    obtain ⟨n, value⟩ := e
    obtain ⟨hn, hkeys⟩ := List.nodup_cons.mp hkeys
    rw [List.foldlM_cons] at h
    obtain ⟨s₁, hfirst, hrest⟩ := bind_eq_ok_iff.mp h
    have hfield := ih hkeys hrest
    rw [Entries.get?_cons]
    by_cases hname : n = name
    · subst hname
      have hnone : Entries.get? entries n = none := by
        rw [← Option.not_isSome_iff_eq_none, ← Entries.mem_keys_iff]
        exact hn
      rw [hnone] at hfield
      rw [if_pos rfl]
      exact ⟨s, s₁, rfl, hfirst, hfield⟩
    · have hkept := hother s n value hname s₁ hfirst
      rw [if_neg hname]
      cases hget : Entries.get? entries name with
      | none =>
        rw [hget] at hfield
        exact hfield.trans hkept
      | some value' =>
        rw [hget] at hfield
        obtain ⟨s₂, s₃, hbefore, hread, hafter⟩ := hfield
        exact ⟨s₂, s₃, hbefore.trans hkept, hread, hafter⟩

/-! ## What a definition writes -/

namespace Json

/-- The fields that a definition writes, by their names. -/
def machineFields : Json → List (String × Json)
  | .object entries => entries
  | .array items => namedItems Machine.fields items
  | _ => []

/-- The states that a definition writes, by their names. -/
def writtenStates (definition : Json) : List (String × Json) :=
  ((Entries.get? definition.machineFields "States").bind entries?).getD []

/-- The definition that a Map state writes for its items. -/
def writtenProcessor? (state : Json) : Option Json :=
  (state.field? "ItemProcessor").bind readDocument? <|>
    (state.field? "Iterator").bind readDocument?

/-- A state names a kind by the word for it, or by its number inside a Map state. -/
def NamesKind (state : Json) (nested : Bool) (kind : StateKind) : Prop :=
  ∃ type, state.field? "Type" = some type ∧ StateKind.read nested type = .ok kind

/-- The definitions that a definition writes: itself, and those that its Map states write, which are
nested. -/
inductive WritesLevel (definition : Json) : (nested : Bool) → Json → Prop
  | self : WritesLevel definition false definition
  | inside {nested : Bool} {l state inner : Json} {name : String}
      (hl : WritesLevel definition nested l) (hs : (name, state) ∈ l.writtenStates)
      (htype : state.NamesKind nested .map) (hp : state.writtenProcessor? = some inner) :
      WritesLevel definition true inner

/-- A definition writes a Task state with a resource, at its own level or inside its Map states. -/
def WritesTask (definition : Json) (name : String) (resource : Json) : Prop :=
  ∃ nested l state, definition.WritesLevel nested l ∧ (name, state) ∈ l.writtenStates ∧
    state.NamesKind nested .task ∧ state.field? resourceName = some resource

/-! ### Distinct names -/

theorem wellFormed_of_get? {entries : List (String × Json)} {name : String} {value : Json}
    (h : (object entries).WellFormed) (hvalue : Entries.get? entries name = some value) :
    value.WellFormed :=
  (wellFormedEntries_iff entries).mp h.2 _ (Entries.mem_of_get? hvalue)

theorem nodup_namedItems {names : List String} (h : names.Nodup) (items : List Json) :
    (Entries.keys (namedItems names items)).Nodup := by
  refine h.sublist ?_
  induction names generalizing items with
  | nil => exact List.Sublist.refl _
  | cons name names ih =>
    cases items with
    | nil => exact List.nil_sublist _
    | cons item items => exact (ih (List.nodup_cons.mp h).2 items).cons_cons name

theorem WellFormed.nodup_machineFields {definition : Json} (h : definition.WellFormed) :
    (Entries.keys definition.machineFields).Nodup := by
  cases definition with
  | object entries => exact h.1
  | array items => exact nodup_namedItems (by decide) items
  | _ => exact List.nodup_nil

theorem WellFormed.field? {document value : Json} {name : String} (h : document.WellFormed)
    (hvalue : document.field? name = some value) : value.WellFormed := by
  cases document with
  | object entries => exact wellFormed_of_get? h hvalue
  | _ => cases hvalue

theorem WellFormed.machineField {definition value : Json} {name : String}
    (h : definition.WellFormed)
    (hvalue : Entries.get? definition.machineFields name = some value) : value.WellFormed := by
  cases definition with
  | object entries => exact wellFormed_of_get? h hvalue
  | array items =>
    have hmem := (List.of_mem_zip (Entries.mem_of_get? hvalue)).2
    exact (wellFormedItems_iff items).mp h _ hmem
  | _ => cases hvalue

theorem WellFormed.writtenState {definition state : Json} {name : String}
    (h : definition.WellFormed) (hs : (name, state) ∈ definition.writtenStates) :
    state.WellFormed := by
  unfold writtenStates at hs
  cases htable : Entries.get? definition.machineFields "States" with
  | none =>
    rw [htable] at hs
    cases hs
  | some table =>
    rw [htable] at hs
    have hwell := h.machineField htable
    cases table with
    | object entries => exact (wellFormedEntries_iff entries).mp hwell.2 _ hs
    | _ => cases hs

theorem WellFormed.writtenProcessor? {state inner : Json} (h : state.WellFormed)
    (hp : state.writtenProcessor? = some inner) : inner.WellFormed := by
  have hdocument {name : String} (hname : (state.field? name).bind readDocument? = some inner) :
      inner.WellFormed := by
    obtain ⟨value, hvalue, hread⟩ := Option.bind_eq_some_iff.mp hname
    have hwell := h.field? hvalue
    cases value with
    | null => cases hread
    | _ =>
      cases hread
      exact hwell
  unfold Json.writtenProcessor? at hp
  cases hfirst : (state.field? "ItemProcessor").bind readDocument? with
  | none =>
    rw [hfirst] at hp
    exact hdocument hp
  | some first =>
    rw [hfirst] at hp
    cases hp
    exact hdocument hfirst

theorem WritesLevel.wellFormed {definition l : Json} {nested : Bool} (h : definition.WellFormed)
    (hl : definition.WritesLevel nested l) : l.WellFormed := by
  induction hl with
  | self => exact h
  | inside _ hs _ hp ih => exact (ih.writtenState hs).writtenProcessor? hp

end Json

/-! ## What is read of it -/

theorem Entries.keys_map_values {α β : Type} (k : String → α → β) (entries : List (String × α)) :
    Entries.keys (entries.map fun e => (e.1, k e.1 e.2)) = Entries.keys entries := by
  rw [Entries.keys, List.map_map]
  rfl

namespace Json

theorem keys_machineFields_resolveReferences (definition : Json) :
    Entries.keys definition.resolveReferences.machineFields =
      Entries.keys definition.machineFields := by
  cases definition with
  | object entries =>
    rw [resolveReferences, machineFields, resolveEntries_eq_map, Entries.keys_map_values]
    rfl
  | array items =>
    rw [resolveReferences, machineFields, machineFields, namedItems_resolveItems]
    exact Entries.keys_map_values (fun _ => resolveReferences) _
  | _ => rfl

theorem get?_machineFields_resolveReferences (definition : Json) :
    Entries.get? definition.resolveReferences.machineFields "States" =
      (Entries.get? definition.machineFields "States").map resolveReferences := by
  cases definition with
  | object entries =>
    rw [resolveReferences, machineFields, resolveEntries_eq_map, Entries.get?_map,
      funext (resolvedValue_of_ne (by decide))]
    rfl
  | array items =>
    rw [resolveReferences, machineFields, machineFields, namedItems_resolveItems]
    exact Entries.get?_map (fun _ => resolveReferences) _ "States"
  | _ => rfl

theorem writtenStates_resolveReferences (definition : Json) :
    definition.resolveReferences.writtenStates =
      definition.writtenStates.map fun e => (e.1, resolvedValue e.1 e.2) := by
  rw [writtenStates, writtenStates, get?_machineFields_resolveReferences]
  cases Entries.get? definition.machineFields "States" with
  | none => rfl
  | some table =>
    cases table with
    | object entries => exact resolveEntries_eq_map entries
    | _ => rfl

theorem field?_resolveReferences (document : Json) (name : String) :
    document.resolveReferences.field? name = (document.field? name).map (resolvedValue name) := by
  cases document with
  | object entries =>
    rw [resolveReferences, field?, resolveEntries_eq_map, Entries.get?_map]
    rfl
  | _ => rfl

end Json

namespace Machine

theorem readPositional_eq_foldlM (nested : Bool) (names : List String) (m : Machine)
    (items : List Json) : readPositional nested names m items =
      (namedItems names items).foldlM (fun m e => m.readField nested e.1 e.2) m := by
  induction items generalizing names m with
  | nil => cases names <;> rfl
  | cons item items ih =>
    cases names with
    | nil => rfl
    | cons name names => exact congrArg _ (funext fun m => ih names m)

theorem foldlM_of_readIn {nested : Bool} {definition : Json} {m : Machine}
    (h : Machine.readIn nested definition = .ok m) :
    definition.machineFields.foldlM (fun m e => m.readField nested e.1 e.2) blank = .ok m := by
  cases definition with
  | object entries =>
    rw [Machine.readIn] at h
    obtain ⟨m', hm, h⟩ := bind_eq_ok_iff.mp h
    obtain ⟨-, -, h⟩ := bind_eq_ok_iff.mp h
    obtain ⟨-, -, h⟩ := bind_eq_ok_iff.mp h
    cases h
    rwa [readEntries_eq_foldlM] at hm
  | array items =>
    rw [Machine.readIn] at h
    obtain ⟨m', hm, h⟩ := bind_eq_ok_iff.mp h
    split at h
    · cases h
      rwa [readPositional_eq_foldlM] at hm
    · cases h
  | _ => cases h

theorem readField_states (nested : Bool) (m : Machine) (name : String) (value : Json)
    (h : name ≠ "States") :
    Yields (fun m' => m'.states = m.states) (m.readField nested name value) := by
  rw [readField_plain h]
  unfold readPlainField
  split
  · exact .bind fun _ _ => .ok rfl
  split
  · exact .bind fun _ _ => .ok rfl
  split
  · exact .bind fun _ _ => .ok rfl
  · exact .ok rfl

/-- The states of a machine are read of those that its definition writes, in their order. -/
theorem forall₂_states_of_readIn {nested : Bool} {definition : Json} {m : Machine}
    (hkeys : (Entries.keys definition.machineFields).Nodup)
    (h : Machine.readIn nested definition = .ok m) :
    List.Forall₂ (fun e s => e.1 = s.1 ∧ State.readIn nested e.2 = .ok s.2)
      definition.writtenStates m.states := by
  have htable : ∀ (entries : List (String × Json)) (states : List (String × State)),
      State.readEntries nested entries = .ok states →
      List.Forall₂ (fun e s => e.1 = s.1 ∧ State.readIn nested e.2 = .ok s.2)
        entries states := by
    intro entries
    induction entries with
    | nil =>
      intro states hstates
      cases hstates
      exact .nil
    | cons e entries ih =>
      intro states hstates
      obtain ⟨name, value⟩ := e
      rw [State.readEntries] at hstates
      obtain ⟨state, hstate, hstates⟩ := bind_eq_ok_iff.mp hstates
      obtain ⟨rest, hrest, hstates⟩ := bind_eq_ok_iff.mp hstates
      cases hstates
      exact .cons ⟨rfl, hstate⟩ (ih rest hrest)
  have hfield := foldlM_field (readField_states nested) hkeys (foldlM_of_readIn h)
  rw [writtenStates]
  cases hget : Entries.get? definition.machineFields "States" with
  | none =>
    rw [hget] at hfield
    rw [show m.states = [] from hfield]
    exact .nil
  | some value =>
    rw [hget] at hfield
    obtain ⟨m₀, m₁, -, hread, hstates⟩ := hfield
    rw [hstates]
    cases value with
    | object entries =>
      rw [readField] at hread
      obtain ⟨states, hentries, hread⟩ := bind_eq_ok_iff.mp hread
      cases hread
      exact htable entries states hentries
    | _ => cases hread

/-- A state that a definition writes is read as a state of that name. -/
theorem exists_state_of_written {nested : Bool} {definition state : Json} {m : Machine}
    {name : String} (hwell : definition.WellFormed)
    (h : Machine.readIn nested definition.resolveReferences = .ok m)
    (hs : (name, state) ∈ definition.writtenStates) :
    ∃ s, (name, s) ∈ m.states ∧ State.readIn nested state.resolveReferences = .ok s := by
  have hkeys : (Entries.keys definition.resolveReferences.machineFields).Nodup := by
    rw [keys_machineFields_resolveReferences]
    exact hwell.nodup_machineFields
  have hstates := forall₂_states_of_readIn hkeys h
  rw [writtenStates_resolveReferences, List.forall₂_map_left_iff] at hstates
  obtain ⟨⟨_, s⟩, hmem, rfl, hread⟩ := exists_of_forall₂_of_mem hstates hs
  refine ⟨s, hmem, ?_⟩
  cases hreference : replacement? name state with
  | some function =>
    rw [resolvedValue, hreference] at hread
    cases hread
  | none =>
    rw [resolvedValue, hreference] at hread
    exact hread

end Machine

/-! ## States of a kind -/

/-- A state whose document names its kind is read as a state of that kind. -/
theorem State.exists_entries_of_readIn {nested : Bool} {kind : StateKind} {state : Json} {s : State}
    (htype : state.NamesKind nested kind)
    (h : State.readIn nested state.resolveReferences = .ok s) :
    ∃ entries, state = .object entries ∧ readKind kind (resolveEntries entries) = .ok s := by
  obtain ⟨type, htype, hkind⟩ := htype
  cases state with
  | object entries =>
    have hget : Entries.get? (resolveEntries entries) "Type" = some type.resolveReferences := by
      have hfield := field?_resolveReferences (.object entries) "Type"
      rw [htype, Option.map_some, resolvedValue_of_ne (by decide)] at hfield
      exact hfield
    rw [resolveReferences, readIn_object, hget] at h
    dsimp only at h
    rw [StateKind.read_resolveReferences, hkind] at h
    exact ⟨entries, rfl, h⟩
  | _ => cases htype

namespace TaskState

theorem readField_resource (s : TaskState) (name : String) (value : Json)
    (h : name ≠ resourceName) :
    Yields (fun s' => s'.resource = s.resource) (s.readField name value) := by
  unfold readField
  split
  · exact .bind fun _ _ => .ok rfl
  split
  · next hname => exact absurd hname h
  split
  · exact .bind fun _ _ => .ok rfl
  split
  · exact .ok rfl
  split
  · exact .bind fun _ _ => .ok rfl
  split
  · exact .bind fun _ _ => .ok rfl
  split
  · exact .bind fun _ _ => .ok rfl
  · exact .ok rfl

/-- The resource of a task is read of the entry of that name. -/
theorem readString_of_read {entries : List (String × Json)} {s : TaskState} {value : Json}
    (hkeys : (Entries.keys entries).Nodup) (h : read entries = .ok s)
    (hvalue : Entries.get? entries resourceName = some value) :
    value.readString = .ok s.resource := by
  rw [read] at h
  obtain ⟨s', hfold, h⟩ := bind_eq_ok_iff.mp h
  obtain ⟨-, -, h⟩ := bind_eq_ok_iff.mp h
  obtain ⟨transition, -, h⟩ := bind_eq_ok_iff.mp h
  cases h
  have hfield := foldlM_field readField_resource hkeys hfold
  rw [hvalue] at hfield
  obtain ⟨s₀, s₁, -, hread, hresource⟩ := hfield
  obtain ⟨resource, hstring, hread⟩ := bind_eq_ok_iff.mp hread
  cases hread
  rw [hstring, hresource]

end TaskState

namespace MapParts

theorem readField_itemProcessor? (parts : MapParts) (name : String) (value : Json)
    (h : name ≠ "ItemProcessor") :
    Yields (fun parts' => parts'.itemProcessor? = parts.itemProcessor?)
      (parts.readField name value) := by
  unfold readField
  rw [if_neg h]
  split
  · exact .bind fun _ _ => .ok rfl
  · exact .bind fun _ _ => .ok rfl

theorem readField_iterator? (parts : MapParts) (name : String) (value : Json)
    (h : name ≠ "Iterator") :
    Yields (fun parts' => parts'.iterator? = parts.iterator?) (parts.readField name value) := by
  unfold readField
  rw [if_neg h]
  split
  · exact .bind fun _ _ => .ok rfl
  · exact .bind fun _ _ => .ok rfl

/-- A machine of a Map state is read of the definition under its name, which null leaves out. -/
theorem machine_of_readEntries {name : String} (field : MapParts → Option Machine)
    (hname : name ≠ resourceName)
    (hother : ∀ parts n value, n ≠ name →
      Yields (fun parts' => field parts' = field parts) (MapParts.readField parts n value))
    (hself : ∀ parts value, Yields (fun parts' =>
      value.readOptional (Machine.readIn true) = .ok (field parts'))
      (MapParts.readField parts name value))
    (hblank : field ⟨MapSettings.blank, none, none⟩ = none) {entries : List (String × Json)}
    (hkeys : (Entries.keys entries).Nodup) {parts : MapParts}
    (h : readEntries ⟨MapSettings.blank, none, none⟩ (resolveEntries entries) = .ok parts) :
    match (Entries.get? entries name).bind readDocument? with
    | none => field parts = none
    | some inner =>
      ∃ k, field parts = some k ∧ Machine.readIn true inner.resolveReferences = .ok k := by
  rw [readEntries_eq_foldlM, resolveEntries_eq_map] at h
  rw [← Entries.keys_map_values resolvedValue] at hkeys
  have hfield := foldlM_field hother hkeys h
  rw [Entries.get?_map, funext (resolvedValue_of_ne hname), hblank] at hfield
  cases hget : Entries.get? entries name with
  | none =>
    rw [hget] at hfield
    exact hfield
  | some value =>
    rw [hget] at hfield
    obtain ⟨parts₀, parts₁, -, hread, hparts⟩ := hfield
    have hmachine : value.resolveReferences.readOptional (Machine.readIn true) =
        .ok (field parts) := by
      rw [hparts]
      exact hself parts₀ _ parts₁ hread
    cases value with
    | null => exact (Except.ok.inj hmachine).symm
    | _ =>
      obtain ⟨k, hk, heq⟩ := map_eq_ok_iff.mp hmachine
      exact ⟨k, heq.symm, hk⟩

end MapParts

/-- The machine that a Map state runs is read of the definition that the Map state writes. -/
theorem State.exists_processor_of_readKind {entries : List (String × Json)} {s : State}
    {inner : Json} (hkeys : (Entries.keys entries).Nodup)
    (h : readKind .map (resolveEntries entries) = .ok s)
    (hinner : (object entries).writtenProcessor? = some inner) :
    ∃ settings itemProcessor? iterator? k, s = .map settings itemProcessor? iterator? ∧
      processor? itemProcessor? iterator? = some k ∧
      Machine.readIn true inner.resolveReferences = .ok k := by
  rw [readKind] at h
  obtain ⟨parts, hparts, h⟩ := bind_eq_ok_iff.mp h
  obtain ⟨transition, -, h⟩ := bind_eq_ok_iff.mp h
  cases h
  have hprocessor := MapParts.machine_of_readEntries MapParts.itemProcessor? (by decide)
    MapParts.readField_itemProcessor? (fun parts value => .bind fun m? hm? => .ok hm?) rfl hkeys
    hparts
  have hiterator := MapParts.machine_of_readEntries MapParts.iterator? (by decide)
    MapParts.readField_iterator? (fun parts value => .bind fun m? hm? => .ok hm?) rfl hkeys hparts
  unfold writtenProcessor? at hinner
  rw [field?, field?] at hinner
  -- an item processor comes before an iterator, in the document and in the state
  cases hfirst : (Entries.get? entries "ItemProcessor").bind readDocument? with
  | some first =>
    rw [hfirst] at hinner hprocessor
    cases hinner
    obtain ⟨k, hk, hread⟩ := hprocessor
    exact ⟨_, _, _, k, rfl, by rw [processor?, hk]; rfl, hread⟩
  | none =>
    rw [hfirst] at hinner hprocessor
    have hsecond : (Entries.get? entries "Iterator").bind readDocument? = some inner := hinner
    rw [hsecond] at hiterator
    obtain ⟨k, hk, hread⟩ := hiterator
    exact ⟨_, _, _, k, rfl, by rw [processor?, hprocessor, hk]; rfl, hread⟩

/-! ## Levels and tasks -/

namespace Json

/-- A definition that is written at some depth is read as a level of the machine. -/
theorem WritesLevel.exists_level {definition l : Json} {nested : Bool} {m : Machine}
    (hwell : definition.WellFormed) (h : Machine.read definition.resolveReferences = .ok m)
    (hl : definition.WritesLevel nested l) :
    ∃ k, m.HasLevel k ∧ Machine.readIn nested l.resolveReferences = .ok k := by
  induction hl with
  | self => exact ⟨m, .self, h⟩
  | @inside nested l state inner name hl hs htype hp ih =>
    obtain ⟨k, hk, hread⟩ := ih
    have hlwell := hl.wellFormed hwell
    obtain ⟨s, hmem, hstate⟩ := Machine.exists_state_of_written hlwell hread hs
    obtain ⟨entries, rfl, hkind⟩ := State.exists_entries_of_readIn htype hstate
    obtain ⟨settings, itemProcessor?, iterator?, j, rfl, hj, hreadj⟩ :=
      State.exists_processor_of_readKind (hlwell.writtenState hs).1 hkind hp
    exact ⟨j, hk.inside hmem hj, hreadj⟩

/-- **A Task state that a definition writes is a task of the machine.**  Its resource is the
function that replaces a reference. -/
theorem WritesTask.exists_task {definition resource : Json} {m : Machine} {name : String}
    (hwell : definition.WellFormed) (h : Machine.read definition.resolveReferences = .ok m)
    (htask : definition.WritesTask name resource) :
    ∃ task, m.HasTask name task ∧
      (resolvedValue resourceName resource).readString = .ok task.resource := by
  obtain ⟨nested, l, state, hl, hs, htype, hresource⟩ := htask
  obtain ⟨k, hk, hread⟩ := hl.exists_level hwell h
  have hlwell := hl.wellFormed hwell
  obtain ⟨s, hmem, hstate⟩ := Machine.exists_state_of_written hlwell hread hs
  obtain ⟨entries, rfl, hkind⟩ := State.exists_entries_of_readIn htype hstate
  obtain ⟨task, htask, rfl⟩ := map_eq_ok_iff.mp hkind
  refine ⟨task, ⟨k, hk, hmem⟩, ?_⟩
  have hget : Entries.get? (resolveEntries entries) resourceName =
      some (resolvedValue resourceName resource) := by
    have hfield := field?_resolveReferences (.object entries) resourceName
    rw [hresource] at hfield
    exact hfield
  have hkeys : (Entries.keys (resolveEntries entries)).Nodup := by
    rw [resolveEntries_eq_map, Entries.keys_map_values]
    exact (hlwell.writtenState hs).1
  exact TaskState.readString_of_read hkeys htask hget

end Json

end StateFlow
