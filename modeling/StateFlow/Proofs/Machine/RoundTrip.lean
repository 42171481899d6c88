import StateFlow.Proofs.Machine.StateFields

/-!
# Definitions are read back

Writing a definition that was read and reading it again gives the same definition, the states of
every level in their order.  Each kind of state is read back from its own fields; the machines
follow by recursion through their Map states, which may hold a machine under each of two names.

## Main definitions

* `State.Readable`, `Machine.Readable`: the states and machines that a document can write

## Main results

* `Machine.readIn_yields`: what a document writes is readable
* `Machine.readIn_toJson`: a readable machine is read back from its document
* `Machine.read_toJson_of_read`: so a definition that was read is read back
-/

namespace StateFlow

open Json

/-! ## Machines -/

mutual

/-- What a document can write of a machine. -/
def Machine.Readable : Machine → Prop
  | ⟨_, _, states, timeout?⟩ => State.AllReadable states ∧ Counts greatestCount64 timeout?

/-- All states of a table can be written. -/
def State.AllReadable : List (String × State) → Prop
  | [] => True
  | (_, state) :: rest => state.Readable ∧ State.AllReadable rest

/-- What a document can write of a state. -/
def State.Readable : State → Prop
  | .pass s => s.Readable
  | .task s => s.Readable
  | .wait s => s.Readable
  | .choice s => s.Readable
  | .fail _ | .succeed _ | .parallel _ => True
  | .map settings itemProcessor? iterator? =>
    settings.Readable ∧ Machine.AnyReadable itemProcessor? ∧ Machine.AnyReadable iterator?

/-- The same for a machine that may be there. -/
def Machine.AnyReadable : Option Machine → Prop
  | none => True
  | some m => m.Readable

end

/-! ### What was read is readable -/

/-- What a document can write of the parts of a Map state. -/
structure MapParts.Readable (parts : MapParts) : Prop where
  settings : parts.settings.Readable
  itemProcessor : Machine.AnyReadable parts.itemProcessor?
  iterator : Machine.AnyReadable parts.iterator?

namespace Machine

theorem readable_iff (m : Machine) :
    m.Readable ↔ State.AllReadable m.states ∧ Counts greatestCount64 m.timeout? := by
  cases m
  rw [Readable]

theorem readable_blank : blank.Readable := by
  rw [readable_iff]
  exact ⟨trivial, nofun⟩

theorem readPlainField_yields {m : Machine} (h : m.Readable) (name : String) (value : Json) :
    Yields Readable (m.readPlainField name value) := by
  simp only [Yields, readable_iff] at h ⊢
  unfold readPlainField
  split
  · exact Yields.bind fun _ _ => .ok h
  split
  · exact Yields.bind fun _ _ => .ok h
  split
  · exact Yields.bind fun n? hn => .ok ⟨h.1, readOptional_yields (readCount_yields _ _) n? hn⟩
  · exact Yields.ok h

end Machine

namespace MapParts

/-- The parts of a Map state with one more field read. -/
def readField (parts : MapParts) (name : String) (value : Json) :
    Except RecordError MapParts := do
  if name = "ItemProcessor" then
    return { parts with itemProcessor? := ← value.readOptional (Machine.readIn true) }
  else if name = "Iterator" then
    return { parts with iterator? := ← value.readOptional (Machine.readIn true) }
  else return { parts with settings := ← parts.settings.readField name value }

theorem readEntries_cons (parts : MapParts) (name : String) (value : Json)
    (entries : List (String × Json)) :
    readEntries parts ((name, value) :: entries) =
      parts.readField name value >>= fun parts => readEntries parts entries := by
  unfold readField
  cases value with
  | null =>
    rw [readEntries]
    split
    · rfl
    split
    · rfl
    · cases parts.settings.readField name .null <;> rfl
  | boolean | number | string | array | object =>
    simp only [readEntries, readOptional]
    split
    · cases Machine.readIn true _ <;> rfl
    split
    · cases Machine.readIn true _ <;> rfl
    · cases parts.settings.readField name _ <;> rfl

theorem readEntries_eq_foldlM (parts : MapParts) (entries : List (String × Json)) :
    readEntries parts entries = entries.foldlM (fun parts e => parts.readField e.1 e.2) parts := by
  induction entries generalizing parts with
  | nil => rw [readEntries]; rfl
  | cons e entries ih =>
    rw [readEntries_cons, List.foldlM_cons]
    exact congrArg _ (funext ih)

theorem readField_yields {parts : MapParts} {value : Json}
    (hvalue : Yields Machine.Readable (Machine.readIn true value)) (h : parts.Readable)
    (name : String) :
    Yields Readable (parts.readField name value) := by
  obtain ⟨hsettings, hprocessor, hiterator⟩ := h
  have hmachine : Yields Machine.AnyReadable (value.readOptional (Machine.readIn true)) := by
    intro m? hm?
    cases m? with
    | none => trivial
    | some m => exact readOptional_yields hvalue _ hm? m rfl
  unfold readField
  split
  · exact .bind fun m? hm? => .ok ⟨hsettings, hmachine m? hm?, hiterator⟩
  split
  · exact .bind fun m? hm? => .ok ⟨hsettings, hprocessor, hmachine m? hm?⟩
  · exact .bind fun settings hread => .ok
      ⟨MapSettings.readField_yields _ name value hsettings settings hread, hprocessor, hiterator⟩

end MapParts

/-- What the parts of a Map state are before any field is read. -/
theorem MapParts.readable_blank : MapParts.Readable ⟨MapSettings.blank, none, none⟩ :=
  ⟨⟨nofun, nofun, Nat.zero_le _⟩, trivial, trivial⟩

mutual

/-- **What a document writes is readable.** -/
theorem Machine.readIn_yields (nested : Bool) :
    (document : Json) → Yields Machine.Readable (Machine.readIn nested document)
  | .object entries => by
    rw [Machine.readIn]
    exact .bind fun m hm => .bind fun _ _ => .bind fun _ _ =>
      .ok (Machine.readEntries_yields nested entries Machine.readable_blank m hm)
  | .array items => by
    rw [Machine.readIn]
    refine .bind fun m hm => ?_
    split
    · exact .ok
        (Machine.readPositional_yields nested items Machine.fields Machine.readable_blank m hm)
    · exact .error _
  | .null | .boolean _ | .number _ | .string _ => .error _

theorem Machine.readEntries_yields (nested : Bool) : (entries : List (String × Json)) →
    {m : Machine} → m.Readable → Yields Machine.Readable (Machine.readEntries nested m entries)
  | [], _, h => .ok h
  | (name, value) :: entries, m, h => by
    rw [Machine.readEntries]
    exact .bind fun m' hm' =>
      Machine.readEntries_yields nested entries
        (Machine.readField_yields nested value h name m' hm')

theorem Machine.readPositional_yields (nested : Bool) : (items : List Json) →
    (names : List String) → {m : Machine} → m.Readable →
    Yields Machine.Readable (Machine.readPositional nested names m items)
  | value :: items, name :: names, m, h => by
    rw [Machine.readPositional]
    exact .bind fun m' hm' =>
      Machine.readPositional_yields nested items names
        (Machine.readField_yields nested value h name m' hm')
  | [], names, m, h => by
    cases names <;> exact .ok h
  | _ :: _, [], m, h => .ok h

theorem Machine.readField_yields (nested : Bool) : (value : Json) → {m : Machine} →
    m.Readable → (name : String) →
    Yields Machine.Readable (Machine.readField nested m name value)
  | .object entries, m, h, name => by
    rw [Machine.readField]
    split
    · refine .bind fun states hstates => .ok ?_
      rw [Machine.readable_iff] at h ⊢
      exact ⟨State.readEntries_yields nested entries states hstates, h.2⟩
    · exact Machine.readPlainField_yields h name _
  | .null, m, h, name | .boolean _, m, h, name | .number _, m, h, name | .string _, m, h, name
  | .array _, m, h, name => by
    simp only [Machine.readField]
    split
    · exact .error _
    · exact Machine.readPlainField_yields h name _

theorem State.readEntries_yields (nested : Bool) : (entries : List (String × Json)) →
    Yields State.AllReadable (State.readEntries nested entries)
  | [] => .ok trivial
  | (name, value) :: entries => by
    rw [State.readEntries]
    exact .bind fun state hstate => .bind fun states hstates =>
      .ok ⟨State.readIn_yields nested value state hstate,
        State.readEntries_yields nested entries states hstates⟩

theorem State.readIn_yields (nested : Bool) :
    (document : Json) → Yields State.Readable (State.readIn nested document)
  | .object entries => by
    rw [State.readIn]
    split
    · exact .error _
    · refine .bind fun kind _ => ?_
      cases kind with
      | pass => exact .bind fun s hs => .ok (PassState.read_yields entries s hs)
      | task => exact .bind fun s hs => .ok (TaskState.read_yields entries s hs)
      | wait => exact .bind fun s hs => .ok (WaitState.read_yields entries s hs)
      | choice => exact .bind fun s hs => .ok (ChoiceState.read_yields entries s hs)
      | fail | succeed | parallel => exact .bind fun _ _ => .ok trivial
      | map =>
        refine .bind fun parts hparts => .bind fun transition _ => .ok ?_
        obtain ⟨⟨hselector, hparameters, hconcurrency⟩, hprocessor, hiterator⟩ :=
          MapParts.readEntries_yields entries MapParts.readable_blank parts hparts
        exact ⟨⟨hselector, hparameters, hconcurrency⟩, hprocessor, hiterator⟩
  | .array [] => .error _
  | .array (type :: items) => by
    rw [State.readIn]
    refine .bind fun kind _ => ?_
    cases kind with
    | choice => exact .bind fun s hs => .ok (ChoiceState.readPositional_yields items s hs)
    | fail | succeed => exact .bind fun _ _ => .ok trivial
    | pass | task | wait | map | parallel => exact .error _
  | .null | .boolean _ | .number _ | .string _ => .error _

theorem MapParts.readEntries_yields : (entries : List (String × Json)) → {parts : MapParts} →
    parts.Readable → Yields MapParts.Readable (MapParts.readEntries parts entries)
  | [], _, h => .ok h
  | (name, value) :: entries, parts, h => by
    rw [MapParts.readEntries_cons]
    exact .bind fun parts' hparts' => MapParts.readEntries_yields entries
      (MapParts.readField_yields (Machine.readIn_yields true value) h name parts' hparts')

end

/-! ### What is readable is read back -/

theorem Machine.readEntries_eq_foldlM (nested : Bool) (m : Machine)
    (entries : List (String × Json)) :
    readEntries nested m entries = entries.foldlM (fun m e => m.readField nested e.1 e.2) m := by
  induction entries generalizing m with
  | nil => rw [readEntries]; rfl
  | cons e entries ih =>
    rw [readEntries, List.foldlM_cons]
    exact congrArg _ (funext ih)

theorem Machine.readField_plain {name : String} (h : name ≠ "States") (nested : Bool)
    (m : Machine) (value : Json) : m.readField nested name value = m.readPlainField name value := by
  cases value <;> simp only [readField, if_neg h]

theorem Machine.entryOf_toJson? (name : String) (m? : Option Machine) :
    entryOf name id (Machine.toJson? m?) = entryOf name Machine.toJson m? := by
  cases m? <;> rfl

/-- A machine that is read back is read back where null leaves it out. -/
theorem Machine.readOptional_toJson {m : Machine} (h : Machine.readIn true m.toJson = .ok m) :
    m.toJson.readOptional (Machine.readIn true) = .ok (some m) := by
  have hread : m.toJson.readOptional (Machine.readIn true) =
      some <$> Machine.readIn true m.toJson := by
    cases m
    rfl
  rw [hread, h]
  rfl

/-- The state of some entries that begin with its kind. -/
def State.readKind (kind : StateKind) (entries : List (String × Json)) :
    Except RecordError State :=
  match kind with
  | .pass => .pass <$> PassState.read entries
  | .task => .task <$> TaskState.read entries
  | .wait => .wait <$> WaitState.read entries
  | .choice => .choice <$> ChoiceState.read entries
  | .fail => .fail <$> FailState.read entries
  | .succeed => .succeed <$> SucceedState.read entries
  | .parallel => .parallel <$> ParallelState.read entries
  | .map => do
    let parts ← MapParts.readEntries ⟨MapSettings.blank, none, none⟩ entries
    let transition ← Transition.read entries
    return .map { parts.settings with transition } parts.itemProcessor? parts.iterator?

theorem State.readIn_tagged (nested : Bool) (kind : StateKind) (entries : List (String × Json)) :
    State.readIn nested (State.tagged kind entries) =
      State.readKind kind (("Type", string kind.name) :: entries) := by
  rw [State.tagged, State.readIn, Entries.get?_cons, if_pos rfl]
  cases kind <;> rfl

theorem MapParts.readField_itemProcessor {m : Machine} (h : Machine.readIn true m.toJson = .ok m)
    (parts : MapParts) : parts.readField "ItemProcessor" m.toJson =
      .ok { parts with itemProcessor? := some m } := by
  show (m.toJson.readOptional (Machine.readIn true) >>= fun m? => _) = _
  rw [Machine.readOptional_toJson h]
  rfl

theorem MapParts.readField_iterator {m : Machine} (h : Machine.readIn true m.toJson = .ok m)
    (parts : MapParts) : parts.readField "Iterator" m.toJson =
      .ok { parts with iterator? := some m } := by
  show (m.toJson.readOptional (Machine.readIn true) >>= fun m? => _) = _
  rw [Machine.readOptional_toJson h]
  rfl

theorem MapParts.readField_maxConcurrency {n : Nat} (h : n ≤ greatestCount32)
    (parts : MapParts) : parts.readField "MaxConcurrency" (ofNat n) =
      .ok { parts with settings := { parts.settings with maxConcurrency := n } } := by
  show ((readCount greatestCount32 _ >>= fun n => .ok _) >>= fun settings => _) = _
  rw [readCount_ofNat h]
  rfl

/-- The parts of a Map state are read back from its entries when its machines are. -/
theorem MapParts.gathers_entries {s : MapSettings} (h : s.Readable)
    {itemProcessor? iterator? : Option Machine}
    (hprocessor : ∀ m, itemProcessor? = some m → Machine.readIn true m.toJson = .ok m)
    (hiterator : ∀ m, iterator? = some m → Machine.readIn true m.toJson = .ok m) (tag : Json) :
    Gathers readField
      (("Type", tag) :: s.entries (Machine.toJson? itemProcessor?) (Machine.toJson? iterator?))
      ⟨MapSettings.blank, none, none⟩
      ⟨{ s with transition := .blank }, itemProcessor?, iterator?⟩ := by
  rw [MapSettings.entries, Machine.entryOf_toJson?, Machine.entryOf_toJson?]
  exact .cons rfl (.append (.append (.append (.append (.append (.append (.append (.append (.append
    (.append
    (.entryOf (fun c => MapParts.mk { MapSettings.blank with comment? := c } none none)
      fun _ _ => rfl)
    (.entryOf (fun p => MapParts.mk { MapSettings.blank with
      comment? := s.comment?, itemsPath? := p } none none) fun _ _ => rfl))
    (.entryOf (fun m? => MapParts.mk { MapSettings.blank with
      comment? := s.comment?, itemsPath? := s.itemsPath? } m? none)
      fun m hm => readField_itemProcessor (hprocessor m hm) _))
    (.entryOf (fun m? => MapParts.mk { MapSettings.blank with
      comment? := s.comment?, itemsPath? := s.itemsPath? } itemProcessor? m?)
      fun m hm => readField_iterator (hiterator m hm) _))
    (.document h.itemSelector (fun d => MapParts.mk { MapSettings.blank with
      comment? := s.comment?, itemsPath? := s.itemsPath?, itemSelector? := d }
      itemProcessor? iterator?) fun _ => rfl))
    (.document h.parameters (fun d => MapParts.mk { s with
      parameters? := d, maxConcurrency := 0, input := .absent, result := .absent,
      output := .absent, transition := .blank } itemProcessor? iterator?) fun _ => rfl))
    (.single (readField_maxConcurrency h.maxConcurrency _)))
    (.pathEntry (fun p => MapParts.mk { s with
      input := p, result := .absent, output := .absent, transition := .blank }
      itemProcessor? iterator?) rfl fun _ => rfl))
    (.pathEntry (fun p => MapParts.mk { s with
      result := p, output := .absent, transition := .blank }
      itemProcessor? iterator?) rfl fun _ => rfl))
    (.pathEntry (fun p => MapParts.mk { s with output := p, transition := .blank }
      itemProcessor? iterator?) rfl fun _ => rfl))
    (Transition.gathers_entries (fun _ => rfl) (fun _ => rfl) s.transition))

mutual

/-- **A readable machine is read back** from its document, its states in their order. -/
theorem Machine.readIn_toJson (nested : Bool) :
    (m : Machine) → m.Readable → Machine.readIn nested m.toJson = .ok m
  | ⟨comment?, startAt, states, timeout?⟩, h => by
    rw [Machine.Readable] at h
    have hstates (m : Machine) : m.readField nested "States" (object (State.toEntries states)) =
        .ok { m with states } := by
      rw [Machine.readField, State.readEntries_toEntries nested states h.1]
      rfl
    have hfields : Gathers (Machine.readField nested) (entryOf "Comment" string comment? ++
        [("StartAt", string startAt)] ++ [("States", object (State.toEntries states))] ++
        entryOf "TimeoutSeconds" ofNat timeout?) Machine.blank
        ⟨comment?, startAt, states, timeout?⟩ :=
      .append (.append (.append
        (.entryOf (fun c => { Machine.blank with comment? := c })
          fun _ _ => Machine.readField_plain (by decide) _ _ _)
        (.single (Machine.readField_plain (by decide) _ _ _)))
        (.single (hstates _)))
        (.count h.2 (fun n => Machine.mk comment? startAt states n)
          fun _ => Machine.readField_plain (by decide) _ _ _)
    rw [Machine.toJson, Machine.readIn, Machine.readEntries_eq_foldlM, hfields.foldlM_eq,
      require_ok (string startAt) (by simp),
      require_ok (object (State.toEntries states)) (by simp)]
    rfl

theorem State.readEntries_toEntries (nested : Bool) : (states : List (String × State)) →
    State.AllReadable states → State.readEntries nested (State.toEntries states) = .ok states
  | [], _ => by rw [State.toEntries, State.readEntries]
  | (name, state) :: states, h => by
    rw [State.toEntries, State.readEntries, State.readIn_toJson nested state h.1,
      State.readEntries_toEntries nested states h.2]
    rfl

/-- A readable state is read back from its document. -/
theorem State.readIn_toJson (nested : Bool) :
    (state : State) → state.Readable → State.readIn nested state.toJson = .ok state
  | .pass s, h => by
    rw [State.toJson, State.readIn_tagged, State.readKind, PassState.read_entries h]
    rfl
  | .task s, h => by
    rw [State.toJson, State.readIn_tagged, State.readKind, TaskState.read_entries h]
    rfl
  | .wait s, h => by
    rw [State.toJson, State.readIn_tagged, State.readKind, WaitState.read_entries h]
    rfl
  | .choice s, h => by
    rw [State.toJson, State.readIn_tagged, State.readKind, ChoiceState.read_entries h]
    rfl
  | .fail s, _ => by
    rw [State.toJson, State.readIn_tagged, State.readKind, FailState.read_entries s]
    rfl
  | .succeed s, _ => by
    rw [State.toJson, State.readIn_tagged, State.readKind, SucceedState.read_entries s]
    rfl
  | .parallel s, _ => by
    rw [State.toJson, State.readIn_tagged, State.readKind, ParallelState.read_entries s]
    rfl
  | .map s itemProcessor? iterator?, h => by
    have hparts := MapParts.gathers_entries h.1 (Machine.readIn_toJson? itemProcessor? h.2.1)
      (Machine.readIn_toJson? iterator? h.2.2) (string StateKind.map.name)
    have htransition := MapSettings.read_transition s (Machine.toJson? itemProcessor?)
      (Machine.toJson? iterator?) (string StateKind.map.name)
    rw [State.toJson, State.readIn_tagged, State.readKind, MapParts.readEntries_eq_foldlM,
      hparts.foldlM_eq, htransition]
    rfl

theorem Machine.readIn_toJson? : (m? : Option Machine) → Machine.AnyReadable m? →
    ∀ m, m? = some m → Machine.readIn true m.toJson = .ok m
  | none, _, _, hm => by cases hm
  | some m, h, m', hm => by
    cases hm
    exact Machine.readIn_toJson true m h

end

/-- **A definition that was read is read back.** -/
theorem Machine.read_toJson_of_read {document : Json} {m : Machine}
    (h : Machine.read document = .ok m) : Machine.read m.toJson = .ok m :=
  Machine.readIn_toJson false m (Machine.readIn_yields false document m h)

/-- A table whose Map state runs the machine under its older name, with a rule of two levels; the
task inside names its kind by number. -/
def nestedDocument : Json := object [
  ("StartAt", string "Pick"),
  ("States", object [
    ("Pick", object [
      ("Type", string "Choice"),
      ("Choices", array [object [
        ("Not", object [("And", array [
          object [("Variable", string "$.n"), ("NumericLessThan", ofNat 3)],
          object [("Variable", string "$.n"), ("NumericEqualsPath", string "$.m")]])]),
        ("Next", string "Each")]]),
      ("Default", string "Each")]),
    ("Each", object [
      ("Type", string "Map"),
      ("InputPath", null),
      ("MaxConcurrency", ofNat 0),
      ("Parameters", object [("v.$", string "$$.Map.Item.Value")]),
      ("Iterator", object [
        ("StartAt", string "Call"),
        ("States", object [
          ("Call", object [("Type", ofNat 1), ("Resource", string "f"),
            ("TimeoutSeconds", null), ("ResultPath", string "$.r"), ("End", boolean true)])])]),
      ("Next", string "Done")]),
    ("Done", array [string "Succeed", null])])]

theorem Machine.read_toJson_of_read_nested :
    ∃ m, Machine.read nestedDocument = .ok m ∧ Machine.read m.toJson = .ok m := by
  have hread : (Machine.read nestedDocument).toOption.isSome := by decide +kernel
  cases h : Machine.read nestedDocument with
  | error e => rw [h] at hread; cases hread
  | ok m => exact ⟨m, rfl, Machine.read_toJson_of_read h⟩

end StateFlow
