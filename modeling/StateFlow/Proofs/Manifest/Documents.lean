import StateFlow.Proofs.Manifest.Loading

/-!
# The documents that a manifest declares

Every object of a document that is read from a text has distinct names, since a name that is written
twice keeps its first place.  So the fields of a declared definition, and of everything in it, can
be looked up by their names.

## Main results

* `Yaml.Document.value_wellFormed`: the value of a node has distinct names at every depth
* `Declarations.wellFormed_definitions`: the definitions of a manifest are well formed
-/

namespace StateFlow

namespace Entries

variable {α : Type} {P : α → Prop}

theorem forall_insert {entries : List (String × α)} (h : ∀ e ∈ entries, P e.2) (name : String)
    {value : α} (hvalue : P value) : ∀ e ∈ insert entries name value, P e.2 := by
  induction entries with
  | nil => exact List.forall_mem_singleton.mpr hvalue
  | cons e rest ih =>
    obtain ⟨k, v⟩ := e
    obtain ⟨hv, hrest⟩ := List.forall_mem_cons.mp h
    rw [insert]
    split
    · exact List.forall_mem_cons.mpr ⟨hvalue, hrest⟩
    · exact List.forall_mem_cons.mpr ⟨hv, ih hrest⟩

/-- What all values of some pairs have is had by those that are kept. -/
theorem forall_ofPairs {pairs : List (String × α)} (h : ∀ p ∈ pairs, P p.2) :
    ∀ e ∈ ofPairs pairs, P e.2 := by
  have hset : ∀ (pairs entries : List (String × α)), (∀ p ∈ pairs, P p.2) →
      (∀ e ∈ entries, P e.2) →
        ∀ e ∈ pairs.foldl (fun es e => insert es e.1 e.2) entries, P e.2 := by
    intro pairs
    induction pairs with
    | nil => exact fun _ _ hentries => hentries
    | cons p rest ih =>
      intro entries hpairs hentries
      obtain ⟨hp, hrest⟩ := List.forall_mem_cons.mp hpairs
      exact ih _ hrest (forall_insert hentries p.1 hp)
  exact hset pairs [] h nofun

end Entries

namespace Yaml

namespace Following.Gives

variable {α β : Type} {P : α → Prop} {Q : β → Prop}

theorem fail : Gives P (failure : Following α) := by
  intro patience a rest h
  cases h

theorem lift {x : Option α} (h : ∀ a, x = some a → P a) : Gives P (liftM x : Following α) := by
  intro patience a rest ha
  obtain ⟨b, hb, heq⟩ := Option.bind_eq_some_iff.mp ha
  cases heq
  exact h a hb

theorem mapM {f : α → Following β} {as : List α} (h : ∀ a ∈ as, Gives Q (f a)) :
    Gives (fun bs => ∀ b ∈ bs, Q b) (as.mapM f) := by
  induction as with
  | nil => exact .pure nofun
  | cons a as ih =>
    obtain ⟨ha, has⟩ := List.forall_mem_cons.mp h
    rw [List.mapM_cons]
    exact ha.bind fun b hb => (ih has).bind fun bs hbs =>
      .pure (List.forall_mem_cons.mpr ⟨hb, hbs⟩)

end Following.Gives

theorem Plain.ofInteger?_wellFormed {n : Int} {value : Json} (h : Plain.ofInteger? n = some value) :
    value.WellFormed := by
  unfold Plain.ofInteger? at h
  split_ifs at h
  cases h
  trivial

theorem Plain.real?_wellFormed {text : String} {value : Json} (h : Plain.real? text = some value) :
    value.WellFormed := by
  unfold Plain.real? at h
  split_ifs at h
  · cases h
    trivial
  · obtain ⟨number, -, rfl⟩ := Option.map_eq_some_iff.mp h
    trivial

theorem Plain.value?_wellFormed {text : String} {value : Json}
    (h : Plain.value? text = some value) :
    value.WellFormed := by
  unfold Plain.value? at h
  split at h
  · cases h
    trivial
  split at h
  · cases h
    trivial
  split at h
  · exact Plain.ofInteger?_wellFormed h
  split at h
  · cases h
    trivial
  · cases h
    cases hnumber : Plain.real? text with
    | none => trivial
    | some value => exact Plain.real?_wellFormed hnumber

theorem scalarValue?_wellFormed {tag? : Option String} {text : String} {plain : Bool} {value : Json}
    (h : scalarValue? tag? text plain = some value) : value.WellFormed := by
  unfold scalarValue? at h
  split at h
  · split at h
    · exact Plain.value?_wellFormed h
    · cases h
      trivial
  · split_ifs at h
    · obtain ⟨b, -, rfl⟩ := Option.map_eq_some_iff.mp h
      trivial
    · obtain ⟨n, -, h⟩ := Option.bind_eq_some_iff.mp h
      exact Plain.ofInteger?_wellFormed h
    · exact Plain.real?_wellFormed h
    · cases h
      trivial
    · cases h
      trivial

/-- **The value of a node has distinct names at every depth.** -/
theorem Document.value_wellFormed (d : Document) (depth : Nat) (node : Node) :
    Following.Gives Json.WellFormed (d.value depth node) := by
  induction depth generalizing node with
  | zero =>
    rw [value]
    refine .of_bind fun node => ?_
    split
    · exact .lift fun value h => scalarValue?_wellFormed h
    · exact .fail
  | succ depth ih =>
    rw [value]
    refine .of_bind fun node => ?_
    split
    · exact .lift fun value h => scalarValue?_wellFormed h
    · dsimp only
      split
      · exact .bind (P := fun _ => False) .fail nofun
      · exact .bind (.mapM fun item _ => ih item) fun items hitems =>
          .pure ((Json.wellFormedItems_iff items).mpr hitems)
    · dsimp only
      split
      · exact .bind (P := fun _ => False) .fail nofun
      -- the names of a mapping may repeat; those of the object that is made of it do not
      · refine .bind (P := fun pairs => ∀ p ∈ pairs, p.2.WellFormed) (.mapM fun e _ => ?_) ?_
        · exact .of_bind fun name => (ih e.2).bind fun value hvalue => .pure hvalue
        · exact fun pairs hpairs => .pure ⟨Entries.nodup_keys_ofPairs pairs,
            (Json.wellFormedEntries_iff _).mpr (Entries.forall_ofPairs hpairs)⟩
    · exact .fail

/-- The values of a table have what each reading of one gives. -/
theorem Following.Gives.table_values {α : Type} {P : α → Prop} {read : Node → Following α}
    (h : ∀ node, Following.Gives P (read node)) (d : Document) (node : Node) :
    Following.Gives (fun entries => ∀ e ∈ entries, P e.2) (d.table read node) := by
  refine .of_bind fun entries => ?_
  refine .bind (P := fun pairs => ∀ p ∈ pairs, P p.2) (.mapM fun e _ => ?_) ?_
  · exact .of_bind fun name => (h e.2).bind fun value hvalue => .pure hvalue
  · exact fun pairs hpairs => .pure (Entries.forall_ofPairs hpairs)

end Yaml

/-- **The definitions of a manifest are well formed.** -/
theorem Declarations.wellFormed_definitions {text : String} {d : Declarations}
    (h : Declarations.read? text = some d) : ∀ p ∈ d.definitions, p.2.WellFormed := by
  obtain ⟨document, -, hd⟩ := Option.bind_eq_some_iff.mp h
  obtain ⟨⟨d', rest⟩, hrun, rfl⟩ := Option.map_eq_some_iff.mp hd
  have hdefinition (node : Yaml.Node) :
      Yaml.Following.Gives Json.WellFormed (readDefinition document node) := by
    refine .of_bind fun fields => ?_
    unfold Yaml.required
    split
    · exact document.value_wellFormed _ _
    · exact .fail
  have hgives : Yaml.Following.Gives (fun d : Declarations => ∀ p ∈ d.definitions, p.2.WellFormed)
      (Declarations.ofDocument document) := by
    refine .of_bind fun fields => .of_bind fun handlers => ?_
    have hdefinitions : Yaml.Following.Gives (fun entries => ∀ e ∈ entries, e.2.WellFormed)
        (Yaml.optional fields "stepFunctions" [] (readMachines document)) :=
      .optional nofun fun node => .of_bind fun fields' =>
        .optional nofun (.table_values hdefinition document)
    exact hdefinitions.bind fun definitions h => .of_bind fun custom => .pure h
  exact hgives document.patience d' rest hrun

end StateFlow
