import StateFlow.Machine.Codec
import StateFlow.Proofs.Choice.RoundTrip
import StateFlow.Proofs.Record

/-!
# States are read back from their fields

Each kind of state is read from its own entries and writes its own, so each is shown to be read back
field by field; the machines inside a Map state are left to the definition that holds it.

Not every state can be written so that it is read back: a free document that is null would be read
as absent, and a count may be too great for its field.  The predicate `Readable` of each kind leaves
these out; whatever was read is readable.

## Main definitions

* `Plain`: entries that are none of a transition, so that a transition can stand behind them
* `PassState.Readable` and its like: what a document can write of a state

## Main results

* `PassState.read_yields` and its like: what was read is readable
* `PassState.read_entries` and its like: a readable state is read back from its entries
-/

namespace StateFlow

open Json

/-! ## Pieces of an object -/

/-- No entry is one of a transition or the kind of a state. -/
def Plain (entries : List (String × Json)) : Prop :=
  ∀ e ∈ entries, e.1 ∉ ["Type", "Next", "End"]

@[simp] theorem plain_append (xs ys : List (String × Json)) :
    Plain (xs ++ ys) ↔ Plain xs ∧ Plain ys := by
  simp only [Plain, List.mem_append, or_imp, forall_and]

@[simp] theorem plain_cons (e : String × Json) (xs : List (String × Json)) :
    Plain (e :: xs) ↔ e.1 ∉ ["Type", "Next", "End"] ∧ Plain xs := by
  simp only [Plain, List.forall_mem_cons]

@[simp] theorem plain_nil : Plain [] := nofun

theorem plain_entryOf {α : Type} {name : String} {write : α → Json} {value? : Option α}
    (h : name ∉ ["Type", "Next", "End"]) : Plain (entryOf name write value?) := by
  cases value? with
  | none => exact plain_nil
  | some value => exact (plain_cons _ _).mpr ⟨h, plain_nil⟩

theorem plain_pathEntry {name : String} {field : PathField}
    (h : name ∉ ["Type", "Next", "End"]) : Plain (pathEntry name field) := by
  cases field with
  | absent => exact plain_nil
  | null | path => exact (plain_cons _ _).mpr ⟨h, plain_nil⟩

namespace Transition

/-- A transition without `Next` and `End`. -/
def blank : Transition := ⟨none, false⟩

/-- A transition is read back from an object whose other entries are plain. -/
theorem read_entries {fields : List (String × Json)} (h : Plain fields) (tag : Json)
    (t : Transition) : read (("Type", tag) :: (fields ++ t.entries)) = .ok t := by
  have hskip : ∀ e ∈ fields, readField blank e.1 e.2 = .ok blank := by
    intro e he
    have hname := h e he
    simp only [List.mem_cons, List.not_mem_nil, or_false, not_or] at hname
    rw [readField, if_neg hname.2.1, if_neg hname.2.2]
    rfl
  have hentries : Gathers readField t.entries blank t := by
    obtain ⟨next?, ends⟩ := t
    cases next? <;> cases ends <;> rfl
  exact (Gathers.skip hskip).append hentries |>.cons rfl

/-- The entries of a transition change nothing else. -/
theorem gathers_entries {σ : Type} {readField : σ → String → Json → Except RecordError σ} {s : σ}
    (hnext : ∀ value, readField s "Next" value = .ok s)
    (hend : ∀ value, readField s "End" value = .ok s) (t : Transition) :
    Gathers readField t.entries s s := by
  obtain ⟨next?, ends⟩ := t
  have hnext' : Gathers readField (entryOf "Next" string next?) s s := by
    cases next? with
    | none => rfl
    | some next => exact Gathers.cons (hnext _) rfl
  have hend' : Gathers readField (if ends then [("End", boolean true)] else []) s s := by
    cases ends with
    | false => rfl
    | true => exact Gathers.cons (hend _) rfl
  exact hnext'.append hend'

end Transition

/-! ## States that hold no machine -/

namespace PassState

/-- What a document can write of a Pass state. -/
def Readable (s : PassState) : Prop := Free s.parameters?

theorem readField_yields (s : PassState) (name : String) (value : Json) (h : s.Readable) :
    Yields Readable (s.readField name value) := by
  unfold readField
  split
  · exact .bind fun _ _ => .ok h
  split
  · exact .bind fun _ _ => .ok h
  split
  · exact .ok (readDocument?_free value)
  split
  · exact .bind fun _ _ => .ok h
  split
  · exact .bind fun _ _ => .ok h
  · exact .ok h

theorem read_yields (entries : List (String × Json)) : Yields Readable (read entries) := by
  have hfields := Yields.foldlM (fun s e => readField_yields s e.1 e.2) entries
    (show blank.Readable from nofun)
  exact .bind fun s hs => .bind fun _ _ => .ok (hfields s hs)

/-- A Pass state is read back from its entries. -/
theorem read_entries {s : PassState} (h : s.Readable) (tag : Json) :
    read (("Type", tag) :: s.entries) = .ok s := by
  have htransition : Transition.read (("Type", tag) :: s.entries) = .ok s.transition :=
    Transition.read_entries (by simp [plain_entryOf, plain_pathEntry]) tag s.transition
  have hfields : Gathers readField (("Type", tag) :: s.entries) blank
      { s with transition := .blank } :=
    .cons rfl (.append (.append (.append (.append (.append
      (.entryOf (fun c => { blank with comment? := c }) fun _ _ => rfl)
      (.pathEntry (fun p => { blank with comment? := s.comment?, input := p }) rfl fun _ => rfl))
      (.document h (fun d => { blank with
        comment? := s.comment?, input := s.input, parameters? := d }) fun _ => rfl))
      (.pathEntry (fun p => { s with result := p, output := .absent, transition := .blank })
        rfl fun _ => rfl))
      (.pathEntry (fun p => { s with output := p, transition := .blank }) rfl fun _ => rfl))
      (Transition.gathers_entries (fun _ => rfl) (fun _ => rfl) s.transition))
  rw [read, hfields.foldlM_eq, htransition]
  rfl

end PassState

namespace TaskState

/-- What a document can write of a Task state. -/
def Readable (s : TaskState) : Prop := Free s.parameters? ∧ Counts greatestCount64 s.timeout?

theorem readField_yields (s : TaskState) (name : String) (value : Json) (h : s.Readable) :
    Yields Readable (s.readField name value) := by
  unfold readField
  split
  · exact .bind fun _ _ => .ok h
  split
  · exact .bind fun _ _ => .ok h
  split
  · exact .bind fun _ _ => .ok h
  split
  · exact .ok ⟨readDocument?_free value, h.2⟩
  split
  · exact .bind fun _ _ => .ok h
  split
  · exact .bind fun _ _ => .ok h
  split
  · exact .bind fun n? hn => .ok ⟨h.1, readOptional_yields (readCount_yields _ _) n? hn⟩
  · exact .ok h

theorem read_yields (entries : List (String × Json)) : Yields Readable (read entries) := by
  have hfields := Yields.foldlM (fun s e => readField_yields s e.1 e.2) entries
    (show blank.Readable from ⟨nofun, nofun⟩)
  exact .bind fun s hs => .bind fun _ _ => .bind fun _ _ => .ok (hfields s hs)

/-- A Task state is read back from its entries. -/
theorem read_entries {s : TaskState} (h : s.Readable) (tag : Json) :
    read (("Type", tag) :: s.entries) = .ok s := by
  have htransition : Transition.read (("Type", tag) :: s.entries) = .ok s.transition :=
    Transition.read_entries (by simp [plain_entryOf, plain_pathEntry]) tag s.transition
  have hresource : require (("Type", tag) :: s.entries) "Resource" = .ok () :=
    require_ok (string s.resource) (by simp [entries])
  have hfields : Gathers readField (("Type", tag) :: s.entries) blank
      { s with transition := .blank } :=
    .cons rfl (.append (.append (.append (.append (.append (.append (.append
      (.entryOf (fun c => { blank with comment? := c }) fun _ _ => rfl)
      (.single rfl))
      (.pathEntry (fun p => { blank with
        comment? := s.comment?, resource := s.resource, input := p }) rfl fun _ => rfl))
      (.document h.1 (fun d => { s with
        parameters? := d, result := .absent, output := .absent, timeout? := none,
        transition := .blank }) fun _ => rfl))
      (.pathEntry (fun p => { s with
        result := p, output := .absent, timeout? := none, transition := .blank }) rfl fun _ => rfl))
      (.pathEntry (fun p => { s with output := p, timeout? := none, transition := .blank })
        rfl fun _ => rfl))
      (.count h.2 (fun n => { s with timeout? := n, transition := .blank }) fun _ => rfl))
      (Transition.gathers_entries (fun _ => rfl) (fun _ => rfl) s.transition))
  rw [read, hfields.foldlM_eq, hresource, htransition]
  rfl

end TaskState

namespace WaitState

/-- What a document can write of a Wait state. -/
def Readable (s : WaitState) : Prop := Counts greatestCount64 s.seconds?

theorem readField_yields (s : WaitState) (name : String) (value : Json) (h : s.Readable) :
    Yields Readable (s.readField name value) := by
  unfold readField
  split
  · exact .bind fun _ _ => .ok h
  split
  · exact .bind fun n? hn => .ok (readOptional_yields (readCount_yields _ _) n? hn)
  split
  · exact .bind fun _ _ => .ok h
  split
  · exact .bind fun _ _ => .ok h
  split
  · exact .bind fun _ _ => .ok h
  split
  · exact .bind fun _ _ => .ok h
  split
  · exact .bind fun _ _ => .ok h
  · exact .ok h

theorem read_yields (entries : List (String × Json)) : Yields Readable (read entries) := by
  have hfields := Yields.foldlM (fun s e => readField_yields s e.1 e.2) entries
    (show blank.Readable from nofun)
  exact .bind fun s hs => .bind fun _ _ => .ok (hfields s hs)

/-- A Wait state is read back from its entries. -/
theorem read_entries {s : WaitState} (h : s.Readable) (tag : Json) :
    read (("Type", tag) :: s.entries) = .ok s := by
  have htransition : Transition.read (("Type", tag) :: s.entries) = .ok s.transition :=
    Transition.read_entries (by simp [plain_entryOf, plain_pathEntry]) tag s.transition
  have hfields : Gathers readField (("Type", tag) :: s.entries) blank
      { s with transition := .blank } :=
    .cons rfl (.append (.append (.append (.append (.append (.append (.append
      (.entryOf (fun c => { blank with comment? := c }) fun _ _ => rfl)
      (.count h (fun n => { blank with comment? := s.comment?, seconds? := n }) fun _ => rfl))
      (.entryOf (fun p => { blank with
        comment? := s.comment?, seconds? := s.seconds?, secondsPath? := p }) fun _ _ => rfl))
      (.entryOf (fun t => { s with
        timestamp? := t, timestampPath? := none, input := .absent, output := .absent,
        transition := .blank }) fun _ _ => rfl))
      (.entryOf (fun p => { s with
        timestampPath? := p, input := .absent, output := .absent, transition := .blank })
        fun _ _ => rfl))
      (.pathEntry (fun p => { s with input := p, output := .absent, transition := .blank })
        rfl fun _ => rfl))
      (.pathEntry (fun p => { s with output := p, transition := .blank }) rfl fun _ => rfl))
      (Transition.gathers_entries (fun _ => rfl) (fun _ => rfl) s.transition))
  rw [read, hfields.foldlM_eq, htransition]
  rfl

end WaitState

namespace ParallelState

/-- A Parallel state is read back from its entries. -/
theorem read_entries (s : ParallelState) (tag : Json) :
    read (("Type", tag) :: s.entries) = .ok s := by
  have htransition : Transition.read (("Type", tag) :: s.entries) = .ok s.transition :=
    Transition.read_entries (by simp [plain_entryOf]) tag s.transition
  have hfields : Gathers readField (("Type", tag) :: s.entries) blank
      { s with transition := .blank } :=
    .cons rfl (.append (.append
      (.entryOf (fun c => { blank with comment? := c }) fun _ _ => rfl)
      (.single rfl))
      (Transition.gathers_entries (fun _ => rfl) (fun _ => rfl) s.transition))
  rw [read, hfields.foldlM_eq, htransition]
  rfl

end ParallelState

namespace FailState

/-- A Fail state is read back from its entries. -/
theorem read_entries (s : FailState) (tag : Json) : read (("Type", tag) :: s.entries) = .ok s :=
  Gathers.cons rfl (.append (.append
    (.entryOf (fun c => { blank with comment? := c }) fun _ _ => rfl)
    (.entryOf (fun e => { blank with comment? := s.comment?, error? := e }) fun _ _ => rfl))
    (.entryOf (fun c => { s with cause? := c }) fun _ _ => rfl))

end FailState

namespace SucceedState

/-- A Succeed state is read back from its entries. -/
theorem read_entries (s : SucceedState) (tag : Json) :
    read (("Type", tag) :: s.entries) = .ok s :=
  Gathers.cons rfl (.append (.append
    (.entryOf (fun c => { blank with comment? := c }) fun _ _ => rfl)
    (.pathEntry (fun p => { blank with comment? := s.comment?, input := p }) rfl fun _ => rfl))
    (.pathEntry (fun p => { s with output := p }) rfl fun _ => rfl))

end SucceedState

/-- Items that are read back one by one are read back together. -/
theorem mapM_map {ε α β : Type} {read : β → Except ε α} {write : α → β} {items : List α}
    (h : ∀ a ∈ items, read (write a) = .ok a) : (items.map write).mapM read = .ok items := by
  induction items with
  | nil => rfl
  | cons a items ih =>
    obtain ⟨ha, hitems⟩ := List.forall_mem_cons.mp h
    rw [List.map_cons, List.mapM_cons, ha, ih hitems]
    rfl

namespace ChoiceState

/-- What a document can write of a Choice state. -/
def Readable (s : ChoiceState) : Prop := ∀ r ∈ s.rules, r.Readable

/-- An item of a list of rules. -/
theorem readRules_yields (value : Json) :
    Yields (fun rules => ∀ r ∈ rules, Rule.Readable r) (readRules value) := by
  refine .bind fun items _ => .mapM fun item _ => ?_
  split
  · exact .mapError (Rule.read_yields _)
  · exact .error _

theorem readField_yields (s : ChoiceState) (name : String) (value : Json) (h : s.Readable) :
    Yields Readable (s.readField name value) := by
  unfold readField
  split
  · exact .bind fun _ _ => .ok h
  split
  · exact .bind fun rules hrules => .ok (readRules_yields value rules hrules)
  split
  · exact .bind fun _ _ => .ok h
  split
  · exact .bind fun _ _ => .ok h
  split
  · exact .bind fun _ _ => .ok h
  · exact .ok h

theorem readFields_yields (entries : List (String × Json)) :
    Yields Readable (readFields entries) :=
  Yields.foldlM (fun s e => readField_yields s e.1 e.2) entries (show blank.Readable from nofun)

theorem read_yields (entries : List (String × Json)) : Yields Readable (read entries) :=
  .bind fun s hs => .bind fun _ _ => .ok (readFields_yields entries s hs)

theorem readPositional_yields (items : List Json) : Yields Readable (readPositional items) := by
  refine .bind fun s hs => ?_
  split
  · exact .ok (readFields_yields _ s hs)
  · exact .error _

/-- The rules of a Choice state are read back. -/
theorem readRules_toJson {rules : List Rule} (h : ∀ r ∈ rules, r.Readable) :
    readRules (array (rules.map Rule.toJson)) = .ok rules := by
  refine mapM_map fun rule hrule => ?_
  obtain ⟨entries, hobject⟩ := rule.toJson_eq_object
  have hread := Rule.read_toJson rule (h rule hrule)
  rw [hobject] at hread ⊢
  show (Rule.read (.object entries)).mapError _ = _
  rw [hread]
  rfl

theorem readField_choices {s : ChoiceState} (h : s.Readable) (s' : ChoiceState) :
    s'.readField "Choices" (array (s.rules.map Rule.toJson)) =
      .ok { s' with rules := s.rules } := by
  show (readRules _ >>= fun rules => .ok { s' with rules }) = _
  rw [readRules_toJson h]
  rfl

/-- A Choice state is read back from its entries. -/
theorem read_entries {s : ChoiceState} (h : s.Readable) (tag : Json) :
    read (("Type", tag) :: s.entries) = .ok s := by
  have hchoices : require (("Type", tag) :: s.entries) "Choices" = .ok () :=
    require_ok (array (s.rules.map Rule.toJson)) (by simp [entries])
  have hfields : Gathers readField (("Type", tag) :: s.entries) blank s :=
    .cons rfl (.append (.append (.append (.append
      (.entryOf (fun c => { blank with comment? := c }) fun _ _ => rfl)
      (.single (readField_choices h { blank with comment? := s.comment? })))
      (.entryOf (fun d => { blank with comment? := s.comment?, rules := s.rules, default? := d })
        fun _ _ => rfl))
      (.pathEntry (fun p => { s with input := p, output := .absent }) rfl fun _ => rfl))
      (.pathEntry (fun p => { s with output := p }) rfl fun _ => rfl))
  rw [read, readFields, hfields.foldlM_eq, hchoices]
  rfl

end ChoiceState

/-! ## The settings of a Map state -/

namespace MapSettings

/-- What a document can write of the settings of a Map state. -/
structure Readable (s : MapSettings) : Prop where
  itemSelector : Free s.itemSelector?
  parameters : Free s.parameters?
  maxConcurrency : s.maxConcurrency ≤ greatestCount32

theorem readField_yields (s : MapSettings) (name : String) (value : Json) (h : s.Readable) :
    Yields Readable (s.readField name value) := by
  obtain ⟨hselector, hparameters, hconcurrency⟩ := h
  unfold readField
  split
  · exact .bind fun _ _ => .ok ⟨hselector, hparameters, hconcurrency⟩
  split
  · exact .bind fun _ _ => .ok ⟨hselector, hparameters, hconcurrency⟩
  split
  · exact .ok ⟨readDocument?_free value, hparameters, hconcurrency⟩
  split
  · exact .ok ⟨hselector, readDocument?_free value, hconcurrency⟩
  split
  · exact .bind fun n hn => .ok ⟨hselector, hparameters, readCount_yields _ _ n hn⟩
  split
  · exact .bind fun _ _ => .ok ⟨hselector, hparameters, hconcurrency⟩
  split
  · exact .bind fun _ _ => .ok ⟨hselector, hparameters, hconcurrency⟩
  split
  · exact .bind fun _ _ => .ok ⟨hselector, hparameters, hconcurrency⟩
  · exact .ok ⟨hselector, hparameters, hconcurrency⟩

theorem read_transition (s : MapSettings) (itemProcessor? iterator? : Option Json) (tag : Json) :
    Transition.read (("Type", tag) :: s.entries itemProcessor? iterator?) = .ok s.transition :=
  Transition.read_entries (by simp [plain_entryOf, plain_pathEntry]) tag s.transition

end MapSettings

end StateFlow
