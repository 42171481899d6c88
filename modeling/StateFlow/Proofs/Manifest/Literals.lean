import StateFlow.Proofs.Machine.RoundTrip
import StateFlow.Proofs.Manifest.Contents
import StateFlow.Proofs.Manifest.ReplacedStates

/-!
# What loading keeps of a definition

Loading replaces the references of a definition before it knows what is a Task state, so that it
also replaces those that stand in free documents under the name of a resource.  Reading the authored
definition with only the resources of its Task states replaced gives the same machine up to this: in
the loaded machine every free document has had its references replaced.  So the machine is the
authored one exactly when no free document of it holds such a reference.

## Main definitions

* `Machine.resolveTasks`: a definition where only the resources of Task states are replaced

## Main results

* `Json.readsAuthored`: what is read of a document whose references were all replaced
* `Manifest.machines_authored`: the machines of a manifest against its definitions
-/

namespace StateFlow

open Json

/-! ## Definitions with the references of their tasks replaced -/

/-- The kind that the entries of a state name. -/
def StateKind.ofEntries? (nested : Bool) (entries : List (String × Json)) : Option StateKind :=
  (Entries.get? entries "Type").bind fun type => (StateKind.read nested type).toOption

theorem StateKind.read_resolveReferences (nested : Bool) (type : Json) :
    StateKind.read nested type.resolveReferences = StateKind.read nested type := by
  cases type <;> rfl

mutual

/-- A definition where only references that are resources of Task states are replaced, by itself or
inside a Map state. -/
def Machine.resolveTasksIn (nested : Bool) : Json → Json
  | .object entries => .object (Machine.resolveFields nested entries)
  | .array items => .array (Machine.resolvePositional nested Machine.fields items)
  | document => document

/-- The entries of a definition. -/
def Machine.resolveFields (nested : Bool) : List (String × Json) → List (String × Json)
  | [] => []
  | (name, value) :: rest =>
    (name, Machine.resolveField nested name value) :: Machine.resolveFields nested rest

/-- The items of a definition that stands as an array. -/
def Machine.resolvePositional (nested : Bool) : List String → List Json → List Json
  | name :: names, value :: rest =>
    Machine.resolveField nested name value :: Machine.resolvePositional nested names rest
  | _, items => items

/-- A field of a definition: its table of states, or any other. -/
def Machine.resolveField (nested : Bool) (name : String) : Json → Json
  | .object entries =>
    .object (if name = "States" then State.resolveTable nested entries else entries)
  | value => value

/-- The states of a table. -/
def State.resolveTable (nested : Bool) : List (String × Json) → List (String × Json)
  | [] => []
  | (name, value) :: rest =>
    (name, State.resolveTasksIn nested value) :: State.resolveTable nested rest

/-- A state: a Task state has its resource replaced, a Map state what is inside its machines. -/
def State.resolveTasksIn (nested : Bool) : Json → Json
  | .object entries =>
    .object (match StateKind.ofEntries? nested entries with
      | some .task => entries.map fun e => (e.1, TaskState.resolvedField e.1 e.2)
      | some .map => MapParts.resolveFields entries
      | _ => entries)
  | document => document

/-- The entries of a Map state. -/
def MapParts.resolveFields : List (String × Json) → List (String × Json)
  | [] => []
  | (name, value) :: rest =>
    (name, if name = "ItemProcessor" ∨ name = "Iterator" then Machine.resolveTasksIn true value
      else value) :: MapParts.resolveFields rest

end

/-- A definition where only references that are resources of Task states are replaced. -/
def Machine.resolveTasks (definition : Json) : Json := Machine.resolveTasksIn false definition

theorem Machine.resolveFields_eq_map (nested : Bool) (entries : List (String × Json)) :
    Machine.resolveFields nested entries =
      entries.map fun e => (e.1, Machine.resolveField nested e.1 e.2) := by
  induction entries with
  | nil => rfl
  | cons e entries ih => rw [Machine.resolveFields, ih, List.map_cons]

/-- The value of a field of a Map state, what is inside its machines replaced. -/
def MapParts.resolvedField (name : String) (value : Json) : Json :=
  if name = "ItemProcessor" ∨ name = "Iterator" then Machine.resolveTasksIn true value else value

theorem MapParts.resolveFields_eq_map (entries : List (String × Json)) :
    MapParts.resolveFields entries =
      entries.map fun e => (e.1, MapParts.resolvedField e.1 e.2) := by
  induction entries with
  | nil => rfl
  | cons e entries ih =>
    obtain ⟨name, value⟩ := e
    rw [MapParts.resolveFields, ih, List.map_cons, MapParts.resolvedField]

/-! ## Reading machines of replaced documents -/

/-- Reading a document in place of its references and reading it with only the references of its
tasks replaced, as a machine, as a state, and as a field of a machine. -/
structure Json.ReadsAuthored (document : Json) : Prop where
  machine : ∀ nested : Bool, Below (Machine.readIn nested document.resolveReferences)
    (Machine.mapDocuments resolveReferences <$>
      Machine.readIn nested (Machine.resolveTasksIn nested document))
  state : ∀ nested : Bool, Below (State.readIn nested document.resolveReferences)
    (State.mapDocuments resolveReferences <$>
      State.readIn nested (State.resolveTasksIn nested document))
  field : ∀ (nested : Bool) (m : Machine) (name : String),
    Below ((m.mapDocuments resolveReferences).readField nested name document.resolveReferences)
      (Machine.mapDocuments resolveReferences <$>
        m.readField nested name (Machine.resolveField nested name document))

/-! ### States -/

namespace MapParts

/-- The parts of a Map state with the free documents changed. -/
def mapDocuments (f : Json → Json) (parts : MapParts) : MapParts :=
  ⟨parts.settings.mapDocuments f, Machine.mapAnyDocuments f parts.itemProcessor?,
    Machine.mapAnyDocuments f parts.iterator?⟩

theorem readOptional_below {value : Json} (h : value.ReadsAuthored) :
    Below (value.resolveReferences.readOptional (Machine.readIn true))
      (Machine.mapAnyDocuments resolveReferences <$>
        (Machine.resolveTasksIn true value).readOptional (Machine.readIn true)) := by
  have hmachine : Below (some <$> Machine.readIn true value.resolveReferences)
      (Machine.mapAnyDocuments resolveReferences <$>
        some <$> Machine.readIn true (Machine.resolveTasksIn true value)) := by
    intro m? hm?
    obtain ⟨m, hm, rfl⟩ := map_eq_ok_iff.mp hm?
    obtain ⟨a, ha, rfl⟩ := map_eq_ok_iff.mp (h.machine true m hm)
    rw [ha]
    rfl
  cases value with
  | null => exact .of_eq rfl
  | _ => exact hmachine

theorem readField_below {value : Json} (h : value.ReadsAuthored) (parts : MapParts)
    (name : String) :
    Below ((parts.mapDocuments resolveReferences).readField name (resolvedValue name value))
      (mapDocuments resolveReferences <$> parts.readField name (resolvedField name value)) := by
  cases hreference : replacement? name value with
  | some function =>
    obtain rfl := eq_of_replacement? hreference
    exact .of_eq rfl
  | none =>
    rw [resolvedValue, hreference]
    dsimp only
    unfold readField resolvedField
    split
    · next hname =>
      rw [if_pos (.inl hname)]
      exact .bind_map (readOptional_below h) fun m? => .of_eq rfl
    split
    · next hname =>
      rw [if_pos (.inr hname)]
      exact .bind_map (readOptional_below h) fun m? => .of_eq rfl
    · next hprocessor hiterator =>
      rw [if_neg (not_or.mpr ⟨hprocessor, hiterator⟩)]
      exact .bind_map (.of_eq (MapSettings.readField_resolveReferences _ _ _)) fun _ => .of_eq rfl

theorem readEntries_below {entries : List (String × Json)}
    (h : ∀ e ∈ entries, e.2.ReadsAuthored) (parts : MapParts) :
    Below (readEntries (parts.mapDocuments resolveReferences) (resolveEntries entries))
      (mapDocuments resolveReferences <$> readEntries parts (resolveFields entries)) := by
  rw [readEntries_eq_foldlM, readEntries_eq_foldlM, resolveEntries_eq_map, resolveFields_eq_map]
  exact .foldlM_map (fun e he parts => readField_below (h e he) parts e.1) parts

end MapParts

namespace State

/-- The entries of a state of a kind, the references of tasks replaced. -/
def resolveKind (kind : StateKind) (entries : List (String × Json)) : List (String × Json) :=
  match kind with
  | .task => entries.map fun e => (e.1, TaskState.resolvedField e.1 e.2)
  | .map => MapParts.resolveFields entries
  | _ => entries

theorem readIn_object (nested : Bool) (entries : List (String × Json)) :
    State.readIn nested (.object entries) = match Entries.get? entries "Type" with
      | none => .error (.missingField "Type")
      | some type => StateKind.read nested type >>= fun kind => readKind kind entries := by
  rw [State.readIn]
  cases Entries.get? entries "Type" with
  | none => rfl
  | some type =>
    dsimp only
    cases StateKind.read nested type with
    | error e => rfl
    | ok kind => cases kind <;> rfl

theorem readKind_below {entries : List (String × Json)} (h : ∀ e ∈ entries, e.2.ReadsAuthored)
    (kind : StateKind) :
    Below (readKind kind (resolveEntries entries))
      (mapDocuments resolveReferences <$> readKind kind (resolveKind kind entries)) := by
  cases kind with
  | pass =>
    refine .of_eq ?_
    simp only [readKind, resolveKind, PassState.read_resolveEntries, Functor.map_map]
    rfl
  | task =>
    refine .of_eq ?_
    simp only [readKind, resolveKind, TaskState.read_resolveEntries, Functor.map_map]
    rfl
  | wait =>
    refine .of_eq ?_
    simp only [readKind, resolveKind, WaitState.read_resolveEntries, Functor.map_map]
    rfl
  | choice =>
    refine .of_eq ?_
    simp only [readKind, resolveKind, ChoiceState.read_resolveEntries, Functor.map_map]
    rfl
  | fail =>
    refine .of_eq ?_
    simp only [readKind, resolveKind, FailState.read_resolveEntries, Functor.map_map]
    rfl
  | succeed =>
    refine .of_eq ?_
    simp only [readKind, resolveKind, SucceedState.read_resolveEntries, Functor.map_map]
    rfl
  | parallel =>
    refine .of_eq ?_
    simp only [readKind, resolveKind, ParallelState.read_resolveEntries, Functor.map_map]
    rfl
  | map =>
    have htransition : Transition.read (MapParts.resolveFields entries) =
        Transition.read entries := by
      rw [MapParts.resolveFields_eq_map]
      refine Transition.read_map (k := MapParts.resolvedField)
        (fun name value hname => .inr (if_neg ?_)) entries
      rcases hname with rfl | rfl <;> decide
    have hparts := MapParts.readEntries_below h ⟨MapSettings.blank, none, none⟩
    refine .bind_map (f := MapParts.mapDocuments resolveReferences) hparts fun parts => ?_
    rw [Transition.read_resolveEntries, resolveKind, htransition, map_bind]
    exact .of_eq rfl

/-- The kind of a state is read as before, and its own entries after it. -/
theorem readIn_below {entries : List (String × Json)} (h : ∀ e ∈ entries, e.2.ReadsAuthored)
    (nested : Bool) :
    Below (State.readIn nested (object (resolveEntries entries)))
      (mapDocuments resolveReferences <$>
        State.readIn nested (resolveTasksIn nested (.object entries))) := by
  have htype : Entries.get? (resolveEntries entries) "Type" =
      (Entries.get? entries "Type").map resolveReferences := by
    rw [resolveEntries_eq_map, Entries.get?_map]
    refine Option.map_congr fun type _ => ?_
    exact resolvedValue_of_ne (by decide) type
  have hkept (kind : StateKind) : Entries.get? (resolveKind kind entries) "Type" =
      Entries.get? entries "Type" := by
    have hmap {k : String → Json → Json} (hk : ∀ value, k "Type" value = value) :
        Entries.get? (entries.map fun e => (e.1, k e.1 e.2)) "Type" =
          Entries.get? entries "Type" := by
      rw [Entries.get?_map, funext hk, Option.map_id']
    cases kind with
    | task =>
      exact hmap fun value => by rw [TaskState.resolvedField, replacement?_of_ne (by decide)]
    | map =>
      rw [resolveKind, MapParts.resolveFields_eq_map]
      exact hmap fun value => if_neg (by decide)
    | _ => rfl
  rw [readIn_object, htype]
  cases hentries : Entries.get? entries "Type" with
  | none => exact .error _ _
  | some type =>
    dsimp only [Option.map_some]
    rw [StateKind.read_resolveReferences]
    cases hkind : StateKind.read nested type with
    | error e => exact .error _ _
    | ok kind =>
      have hresolved : resolveTasksIn nested (.object entries) =
          .object (resolveKind kind entries) := by
        have hof : StateKind.ofEntries? nested entries = some kind := by
          rw [StateKind.ofEntries?, hentries, Option.bind_some, hkind]
          rfl
        rw [resolveTasksIn, hof]
        cases kind <;> rfl
      rw [hresolved, readIn_object, hkept, hentries]
      dsimp only
      rw [hkind]
      exact readKind_below h kind

theorem readEntries_below {entries : List (String × Json)}
    (h : ∀ e ∈ entries, e.2.ReadsAuthored) (nested : Bool) :
    Below (readEntries nested (resolveEntries entries))
      (mapAllDocuments resolveReferences <$>
        readEntries nested (resolveTable nested entries)) := by
  induction entries with
  | nil => exact .of_eq rfl
  | cons e entries ih =>
    obtain ⟨name, value⟩ := e
    obtain ⟨he, hentries⟩ := List.forall_mem_cons.mp h
    have hstate : Below (State.readIn nested (resolvedValue name value))
        (mapDocuments resolveReferences <$>
          State.readIn nested (resolveTasksIn nested value)) := by
      cases hreference : replacement? name value with
      -- a state whose name is that of a resource and that looks like a reference is no state then
      | some function =>
        rw [resolvedValue, hreference]
        exact .error _ _
      | none =>
        rw [resolvedValue, hreference]
        exact he.state nested
    rw [resolveEntries_eq_map, List.map_cons, ← resolveEntries_eq_map]
    exact .bind_map hstate fun state => .bind_map (ih hentries) fun states => .of_eq rfl

end State

/-! ### Machines -/

namespace Machine

theorem readField_below {entries : List (String × Json)} (h : ∀ e ∈ entries, e.2.ReadsAuthored)
    (nested : Bool) (m : Machine) (name : String) :
    Below ((m.mapDocuments resolveReferences).readField nested name
        (.object (resolveEntries entries)))
      (mapDocuments resolveReferences <$>
        m.readField nested name (resolveField nested name (.object entries))) := by
  rw [resolveField, readField, readField]
  split
  · refine .bind_map (State.readEntries_below h nested) fun states => ?_
    cases m
    exact .of_eq rfl
  · exact .of_eq (readPlainField_resolveReferences m name (.object entries))

/-- What is no object is no table of states. -/
theorem readField_below_of_not_object {value : Json} (h : value.entries? = none)
    (nested : Bool) (m : Machine) (name : String) :
    Below ((m.mapDocuments resolveReferences).readField nested name value.resolveReferences)
      (mapDocuments resolveReferences <$>
        m.readField nested name (resolveField nested name value)) := by
  have hfield : resolveField nested name value = value := by
    cases value with
    | object entries => cases h
    | _ => rfl
  rw [hfield]
  by_cases hname : name = "States"
  · subst hname
    cases value with
    | object entries => cases h
    | _ => exact .error _ _
  · rw [readField_plain hname, readField_plain hname]
    exact .of_eq (readPlainField_resolveReferences m name value)

/-- A machine knows no resource. -/
theorem readField_resource (nested : Bool) (m : Machine) (value : Json) :
    m.readField nested resourceName value = .ok m := by
  rw [readField_plain (by decide)]
  rfl

theorem readEntries_below {entries : List (String × Json)}
    (h : ∀ e ∈ entries, e.2.ReadsAuthored) (nested : Bool) (m : Machine) :
    Below (readEntries nested (m.mapDocuments resolveReferences) (resolveEntries entries))
      (mapDocuments resolveReferences <$>
        readEntries nested m (resolveFields nested entries)) := by
  rw [readEntries_eq_foldlM, readEntries_eq_foldlM, resolveEntries_eq_map, resolveFields_eq_map]
  refine .foldlM_map (fun e he m => ?_) m
  obtain ⟨name, value⟩ := e
  dsimp only
  cases hreference : replacement? name value with
  | some function =>
    obtain rfl := eq_of_replacement? hreference
    rw [readField_resource, readField_resource]
    exact .of_eq rfl
  | none =>
    rw [resolvedValue, hreference]
    exact (h _ he).field nested m name

theorem readPositional_below {items : List Json} (h : ∀ x ∈ items, x.ReadsAuthored)
    (nested : Bool) (names : List String) (m : Machine) :
    Below (readPositional nested names (m.mapDocuments resolveReferences) (resolveItems items))
      (mapDocuments resolveReferences <$>
        readPositional nested names m (resolvePositional nested names items)) := by
  induction items generalizing names m with
  | nil => cases names <;> exact .of_eq rfl
  | cons item items ih =>
    obtain ⟨hitem, hitems⟩ := List.forall_mem_cons.mp h
    cases names with
    | nil => exact .of_eq rfl
    | cons name names => exact .bind_map (hitem.field nested m name) fun m => ih hitems names m

theorem length_resolvePositional (nested : Bool) (names : List String) (items : List Json) :
    (resolvePositional nested names items).length = items.length := by
  induction items generalizing names with
  | nil => cases names <;> rfl
  | cons item items ih =>
    cases names with
    | nil => rfl
    | cons name names => exact congrArg (· + 1) (ih names)

end Machine

/-- Every document is read as the authored one, its free documents with their references
replaced. -/
theorem Json.readsAuthored (document : Json) : document.ReadsAuthored := by
  induction document using Json.induction with
  | object entries ih =>
    refine ⟨fun nested => ?_, State.readIn_below ih, Machine.readField_below ih⟩
    rw [resolveReferences, Machine.readIn, Machine.resolveTasksIn, Machine.readIn]
    refine .bind_map (f := Machine.mapDocuments resolveReferences)
      (Machine.readEntries_below ih nested Machine.blank) fun m => ?_
    rw [require_resolveEntries, require_resolveEntries, Machine.resolveFields_eq_map, require_map,
      require_map, map_bind]
    refine .of_eq (congrArg _ (funext fun _ => ?_))
    rw [map_bind]
    rfl
  | array items ih =>
    refine ⟨fun nested => ?_, fun nested => ?_, ?_⟩
    · rw [resolveReferences, Machine.readIn, Machine.resolveTasksIn, Machine.readIn]
      refine .bind_map (f := Machine.mapDocuments resolveReferences)
        (Machine.readPositional_below ih nested Machine.fields Machine.blank) fun m => ?_
      rw [resolveItems_eq_map, List.length_map, Machine.length_resolvePositional]
      split
      · exact .of_eq rfl
      · exact .error _ _
    · cases items with
      | nil => exact .error _ _
      | cons type items =>
        show Below (State.readIn nested (.array (type.resolveReferences :: resolveItems items)))
          (State.mapDocuments resolveReferences <$>
            State.readIn nested (.array (type :: items)))
        rw [State.readIn, State.readIn, StateKind.read_resolveReferences, map_bind]
        refine .of_eq (congrArg _ (funext fun kind => ?_))
        cases kind with
        | choice =>
          simp only [ChoiceState.readPositional_resolveItems, map_bind, map_pure]
          rfl
        | fail =>
          simp only [FailState.readPositional_resolveItems, map_bind, map_pure]
          rfl
        | succeed =>
          simp only [SucceedState.readPositional_resolveItems, map_bind, map_pure]
          rfl
        | _ => rfl
    · exact Machine.readField_below_of_not_object rfl
  | scalar document hentries hitems =>
    cases document with
    | object | array => contradiction
    | _ =>
      exact ⟨fun _ => .error _ _, fun _ => .error _ _, Machine.readField_below_of_not_object rfl⟩

/-! ## Manifests -/

namespace Manifest

theorem read_of_declarations {text : String} {d : Declarations}
    (hd : Declarations.read? text = some d) : Manifest.read text = ofDeclarations d := by
  rw [Manifest.read, hd]

/-- An accepted manifest was made of declarations, definition by definition. -/
theorem exists_declarations_of_read {text : String} {m : Manifest}
    (h : Manifest.read text = .ok m) :
    ∃ d, Declarations.read? text = some d ∧
      List.Forall₂ (fun p q => p.1 = q.1 ∧ d.Makes p.2 q.2) d.definitions m.machines := by
  cases hd : Declarations.read? text with
  | none =>
    rw [Manifest.read, hd] at h
    cases h
  | some d =>
    rw [read_of_declarations hd] at h
    obtain ⟨options, machines, bindings, -, hr, rfl⟩ := ofDeclarations_eq_ok_iff.mp h
    exact ⟨d, rfl, forall₂_of_readMachines hr⟩

/-- **What loading keeps of the definitions of a manifest.**  The machines of an accepted manifest
are those of its definitions, in their order.  Each is the authored machine, which is read of the
definition with only the resources of its Task states replaced by the functions that they refer to,
and has the references in its free documents replaced as well.  It is the authored machine exactly
when no free document of that one holds a reference under the name of a resource. -/
theorem machines_authored {text : String} {m : Manifest} (h : Manifest.read text = .ok m) :
    ∃ d, Declarations.read? text = some d ∧
      List.Forall₂ (fun definition machine => definition.1 = machine.1 ∧
        ∃ authored, Machine.read (Machine.resolveTasks definition.2) = .ok authored ∧
          machine.2 = authored.mapDocuments Json.resolveReferences ∧
          (machine.2 = authored ↔
            ∀ document ∈ authored.documents, document.WithoutReferences))
        d.definitions m.machines := by
  obtain ⟨d, hd, hmachines⟩ := exists_declarations_of_read h
  refine ⟨d, hd, hmachines.imp ?_⟩
  rintro ⟨name, definition⟩ ⟨name', machine⟩ ⟨hname, hmakes⟩
  obtain ⟨authored, hread, rfl⟩ :=
    map_eq_ok_iff.mp (definition.readsAuthored.machine false machine hmakes.read)
  refine ⟨hname, authored, hread, rfl, ?_⟩
  rw [Machine.mapDocuments_eq_self_iff]
  exact forall₂_congr fun document _ => Json.resolveReferences_eq_self_iff document

/-- A manifest with a Task state whose resource is a reference, and with a parameter of that name
that is given. -/
def parameterText (value : String) : String :=
  "\x7b\"functions\":\x7b\"f\":\x7b\"handler\":\"a.b\"\x7d\x7d,\"stepFunctions\":\x7b\"stateMachines\":" ++
  "\x7b\"m\":\x7b\"definition\":\x7b\"StartAt\":\"A\",\"States\":\x7b\"A\":\x7b\"Type\":\"Task\",\"End\":true," ++
  "\"Resource\":\x7b\"Fn::GetAtt\":\"f.Arn\"\x7d,\"Parameters\":\x7b\"Resource\":" ++ value ++
  "\x7d\x7d\x7d\x7d\x7d\x7d\x7d\x7d"

/-- A parameter that is no reference is kept beside a resource that is one. -/
theorem machines_authored_plain :
    ∃ m d, Manifest.read (parameterText "\"f.Arn\"") = .ok m ∧
      Declarations.read? (parameterText "\"f.Arn\"") = some d ∧
      List.Forall₂ (fun definition machine => definition.1 = machine.1 ∧
        ∃ authored, Machine.read (Machine.resolveTasks definition.2) = .ok authored ∧
          machine.2 = authored.mapDocuments Json.resolveReferences ∧
          (machine.2 = authored ↔
            ∀ document ∈ authored.documents, document.WithoutReferences))
        d.definitions m.machines := by
  have hread : (Manifest.read (parameterText "\"f.Arn\"")).toOption.isSome := by decide +kernel
  cases h : Manifest.read (parameterText "\"f.Arn\"") with
  | error e =>
    rw [h] at hread
    cases hread
  | ok m =>
    obtain ⟨d, hd, hmachines⟩ := machines_authored h
    exact ⟨m, d, rfl, hd, hmachines⟩

/-- What the free documents of a machine hold as strings under the name of a resource. -/
def resourceStrings (m : Machine) : List (Option String) :=
  m.documents.map fun document => (document.field? resourceName).bind Json.string?

/-- A parameter that is such a reference is replaced as if it were the resource of a task. -/
theorem parameter_replaced :
    ¬ ∀ text d m, Declarations.read? text = some d → Manifest.read text = .ok m →
      List.Forall₂ (fun definition machine =>
        Machine.read (Machine.resolveTasks definition.2) = .ok machine.2)
        d.definitions m.machines := by
  intro hclaim
  have hcheck : (Declarations.read? (parameterText "\x7b\"Fn::GetAtt\":\"f.Arn\"\x7d")).map
      (fun d => (d.definitions.map fun p =>
        (Machine.read (Machine.resolveTasks p.2)).toOption.map resourceStrings,
        (ofDeclarations d).toOption.map fun m => m.machines.map fun p =>
          some (resourceStrings p.2))) = some ([some [none]], some [some [some "f"]]) := by
    decide +kernel
  obtain ⟨d, hd, hpair⟩ := Option.map_eq_some_iff.mp hcheck
  obtain ⟨hauthored, hloaded⟩ := Prod.mk.inj hpair
  cases h : ofDeclarations d with
  | error e =>
    rw [h] at hloaded
    cases hloaded
  | ok m =>
    rw [h] at hloaded
    have hmachines : m.machines.map (fun p => some (resourceStrings p.2)) = [some [some "f"]] :=
      Option.some.inj hloaded
    have hequal : d.definitions.map (fun p =>
        (Machine.read (Machine.resolveTasks p.2)).toOption.map resourceStrings) =
        m.machines.map fun p => some (resourceStrings p.2) := by
      rw [← List.forall₂_eq_eq_eq, List.forall₂_map_left_iff, List.forall₂_map_right_iff]
      refine (hclaim _ d m hd ((read_of_declarations hd).trans h)).imp fun p q hpq => ?_
      rw [hpq]
      rfl
    rw [hauthored, hmachines] at hequal
    exact absurd hequal (by decide)

end Manifest

end StateFlow
