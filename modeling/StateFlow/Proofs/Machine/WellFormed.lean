import Mathlib.Data.List.TakeWhile
import StateFlow.Proofs.Machine.Names

/-!
# Well-formed machines

Validation walks through a definition with a set of names and collects violations on its way.  What
it accepts can be said without that walk.  A machine is well formed when each of its levels is, read
on its own, and no two states of any levels share a name.  `Machine.violations_eq_nil_iff` is the
equivalence.

The levels are those that validation descends to, the machine that each Map state runs.  A machine
under `Iterator` beside one under `ItemProcessor` never runs, and nothing is asked of it.

## Main definitions

* `Rule.HasTest`: the single tests in a rule
* `Machine.LevelWellFormed`: what is asked of a level by itself
* `Machine.WellFormed`: every level is well formed, and all names are distinct

## Main results

* `Machine.inspect_eq_nil_iff`: what an inspection with earlier names accepts
* `Machine.violations_eq_nil_iff`: a machine has no violations exactly when it is well formed
* `Machine.levelValid_of_violations`: without violations every level is valid
* `Machine.nodup_tasks`: no two tasks of a machine without violations have one name
-/

namespace StateFlow

/-- The single tests in a rule: itself, or those in a rule that it combines. -/
inductive Rule.HasTest : Rule → RuleFrame → Test → Prop
  | test (frame : RuleFrame) (t : Test) : HasTest (.test frame t) frame t
  | and {rule : Rule} {frame : RuleFrame} {t : Test} (outer : RuleFrame) {rules : List Rule}
      (hr : rule ∈ rules) (ht : HasTest rule frame t) : HasTest (.and outer rules) frame t
  | or {rule : Rule} {frame : RuleFrame} {t : Test} (outer : RuleFrame) {rules : List Rule}
      (hr : rule ∈ rules) (ht : HasTest rule frame t) : HasTest (.or outer rules) frame t
  | not {rule : Rule} {frame : RuleFrame} {t : Test} (outer : RuleFrame)
      (ht : HasTest rule frame t) : HasTest (.not outer rule) frame t

/-- What is asked of a level by itself. -/
structure Machine.LevelWellFormed (l : Machine) : Prop where
  states_ne_nil : l.states ≠ []
  start_mem : l.startAt ∈ Entries.keys l.states
  /-- A state that may have `Next` and `End` has one of them, and `Next` names a state here. -/
  transition : ∀ name state t, (name, state) ∈ l.states → state.transition? = some t →
    (t.ends = true ∧ t.next? = none) ∨
      (t.ends = false ∧ ∃ next ∈ Entries.keys l.states, t.next? = some next)
  choice_rules : ∀ name s, (name, State.choice s) ∈ l.states → s.rules ≠ []
  choice_next : ∀ name s, (name, State.choice s) ∈ l.states → ∀ rule ∈ s.rules,
    ∃ next ∈ Entries.keys l.states, rule.next? = some next
  choice_default : ∀ name s, (name, State.choice s) ∈ l.states → ∀ target,
    s.default? = some target → target ∈ Entries.keys l.states
  choice_subject : ∀ name s, (name, State.choice s) ∈ l.states → ∀ rule ∈ s.rules, ∀ frame t,
    rule.HasTest frame t → frame.subject? ≠ none
  /-- A Wait state has one of the four fields that say how long. -/
  wait : ∀ name s, (name, State.wait s) ∈ l.states →
    [s.seconds?.isSome, s.secondsPath?.isSome, s.timestamp?.isSome,
      s.timestampPath?.isSome].count true = 1
  map : ∀ name s itemProcessor? iterator?,
    (name, State.map s itemProcessor? iterator?) ∈ l.states →
      itemProcessor? ≠ none ∨ iterator? ≠ none
  /-- The resource of a Task state has a character that is not blank. -/
  task : ∀ name s, (name, State.task s) ∈ l.states →
    ∃ c ∈ s.resource.toList, Text.isBlank c = false

/-- Every level is well formed, and the names of all states of all levels are distinct. -/
structure Machine.WellFormed (m : Machine) : Prop where
  level : ∀ l, m.HasLevel l → l.LevelWellFormed
  distinct : m.stateNames.Nodup

/-! ## One level -/

namespace Rule

theorem namesSubjects_iff (rule : Rule) :
    rule.NamesSubjects ↔ ∀ frame t, rule.HasTest frame t → frame.subject? ≠ none := by
  induction rule using Rule.induction with
  | and outer rules ih =>
    rw [NamesSubjects, allNameSubjects_iff]
    constructor
    · intro h frame t ht
      cases ht with
      | and _ hr ht => exact (ih _ hr).mp (h _ hr) frame t ht
    · intro h rule hr
      exact (ih rule hr).mpr fun frame t ht => h frame t (.and outer hr ht)
  | or outer rules ih =>
    rw [NamesSubjects, allNameSubjects_iff]
    constructor
    · intro h frame t ht
      cases ht with
      | or _ hr ht => exact (ih _ hr).mp (h _ hr) frame t ht
    · intro h rule hr
      exact (ih rule hr).mpr fun frame t ht => h frame t (.or outer hr ht)
  | not outer rule ih =>
    rw [NamesSubjects, ih]
    constructor
    · intro h frame t ht
      cases ht with
      | not _ ht => exact h frame t ht
    · intro h frame t ht
      exact h frame t (.not outer ht)
  | test own single =>
    rw [NamesSubjects, Option.isSome_iff_ne_none]
    constructor
    · intro h frame t ht
      cases ht with
      | test => exact h
    · intro h
      exact h own single (.test own single)

end Rule

/-- Something is left of a text between its blanks exactly when not all of it is blank. -/
theorem Text.trim_ne_nil_iff (cs : List Char) :
    Text.trim cs ≠ [] ↔ ∃ c ∈ cs, Text.isBlank c = false := by
  have hend : ∀ cs : List Char, Text.trimEnd cs = [] ↔ ∀ c ∈ cs, Text.isBlank c = true := by
    intro cs
    rw [Text.trimEnd, List.reverse_eq_nil_iff, List.dropWhile_eq_nil_iff]
    simp only [List.mem_reverse]
  have hstart : (∀ c ∈ cs.dropWhile Text.isBlank, Text.isBlank c = true) ↔
      ∀ c ∈ cs, Text.isBlank c = true := by
    induction cs with
    | nil => simp
    | cons c cs ih => by_cases hc : Text.isBlank c = true <;> simp [hc, ih]
  rw [Text.trim, ne_eq, hend, hstart]
  simp

theorem Transition.valid_iff (names : List String) (t : Transition) : t.Valid names ↔
    (t.ends = true ∧ t.next? = none) ∨ (t.ends = false ∧ ∃ next ∈ names, t.next? = some next) := by
  unfold Valid
  cases t.next? <;> cases t.ends <;> simp

theorem State.Valid.transition {names : List String} {state : State} (h : state.Valid names)
    {t : Transition} (ht : state.transition? = some t) : t.Valid names := by
  cases state with
  | pass s => exact Option.some.inj ht ▸ h
  | task s => exact Option.some.inj ht ▸ h.1
  | wait s => exact Option.some.inj ht ▸ h.1
  | map s _ _ => exact Option.some.inj ht ▸ h.1
  | parallel s => exact Option.some.inj ht ▸ h
  | choice s => cases ht
  | fail s => cases ht
  | succeed s => cases ht

theorem WaitState.length_delays (s : WaitState) : s.delays.length =
    [s.seconds?.isSome, s.secondsPath?.isSome, s.timestamp?.isSome,
      s.timestampPath?.isSome].count true := by
  unfold delays
  cases s.seconds? <;> cases s.secondsPath? <;> cases s.timestamp? <;> cases s.timestampPath? <;>
    rfl

namespace Machine

theorem levelWellFormed_iff (l : Machine) : l.LevelWellFormed ↔ l.LevelValid := by
  constructor
  · intro h
    refine ⟨h.start_mem, ?_⟩
    rintro ⟨name, state⟩ he
    have htransition : ∀ t, state.transition? = some t → t.Valid (Entries.keys l.states) :=
      fun t ht => (Transition.valid_iff _ t).mpr (h.transition name state t he ht)
    cases state with
    | pass s => exact htransition _ rfl
    | task s => exact ⟨htransition _ rfl, (Text.trim_ne_nil_iff _).mpr (h.task name s he)⟩
    | wait s => exact ⟨htransition _ rfl, s.length_delays.trans (h.wait name s he)⟩
    | choice s =>
      refine ⟨h.choice_rules name s he, fun rule hrule => ?_, h.choice_default name s he⟩
      exact ⟨h.choice_next name s he rule hrule,
        rule.namesSubjects_iff.mpr (h.choice_subject name s he rule hrule)⟩
    | fail s => trivial
    | succeed s => trivial
    | map s itemProcessor? iterator? =>
      refine ⟨htransition _ rfl, ?_⟩
      have hmap := h.map name s itemProcessor? iterator? he
      cases itemProcessor? <;> cases iterator? <;> simp_all [processor?]
    | parallel s => exact htransition _ rfl
  · intro h
    constructor
    case states_ne_nil =>
      intro hnil
      simpa [hnil, Entries.keys] using h.start_mem
    case start_mem => exact h.start_mem
    case transition =>
      intro name state t he ht
      exact (Transition.valid_iff _ t).mp ((h.valid _ he).transition ht)
    case choice_rules => exact fun name s he => (h.valid _ he).1
    case choice_next => exact fun name s he rule hrule => ((h.valid _ he).2.1 rule hrule).1
    case choice_default => exact fun name s he => (h.valid _ he).2.2
    case choice_subject =>
      intro name s he rule hrule
      exact rule.namesSubjects_iff.mp ((h.valid _ he).2.1 rule hrule).2
    case wait => exact fun name s he => s.length_delays.symm.trans (h.valid _ he).2
    case map =>
      intro name s itemProcessor? iterator? he
      have hmap := (h.valid _ he).2
      cases itemProcessor? <;> cases iterator? <;> simp_all [processor?]
    case task => exact fun name s he => (Text.trim_ne_nil_iff _).mp (h.valid _ he).2

/-! ## All levels

An inspection that starts with some declared names accepts a machine when every level is valid and
the names of its states are new: distinct, and none of them declared before. -/

/-- Every level of a machine is valid. -/
def Valid (m : Machine) : Prop := ∀ l, m.HasLevel l → l.LevelValid

/-- Names that an inspection has not come across. -/
def New (declared names : List String) : Prop := names.Nodup ∧ ∀ n ∈ names, n ∉ declared

end Machine

/-- The machine that a Map state runs is valid at every level. -/
def State.ValidInside (state : State) : Prop := ∀ inner, state.inner? = some inner → inner.Valid

namespace Machine

theorem new_nil (declared : List String) : New declared [] := by
  simp [New]

/-- The names of a state and of those after it, as an inspection comes across them. -/
theorem new_cons_append {declared inside rest : List String} {name : String} :
    New declared (name :: (inside ++ rest)) ↔ name ∉ declared ∧ New (name :: declared) inside ∧
      New (inside.reverse ++ name :: declared) rest := by
  unfold New
  grind

theorem valid_iff {m : Machine} :
    m.Valid ↔ m.LevelValid ∧ ∀ e ∈ m.states, e.2.ValidInside := by
  constructor
  · intro h
    refine ⟨h m .self, fun e he inner hinner l hl => h l ?_⟩
    exact hasLevel_iff.mpr (Or.inr ⟨e, he, inner, hinner, hl⟩)
  · rintro ⟨hm, hinside⟩ l hl
    rcases hasLevel_iff.mp hl with rfl | ⟨e, he, inner, hinner, hl⟩
    · exact hm
    · exact hinside e he inner hinner l hl

theorem levelViolations_eq_nil_iff {trail : List String} {m : Machine} :
    levelViolations trail m = [] ↔ m.startAt ∈ Entries.keys m.states := by
  unfold levelViolations
  constructor
  · intro h
    simpa using (List.append_eq_nil_iff.mp h).2
  · intro h
    have hne : m.states ≠ [] := by
      intro hnil
      simp [hnil, Entries.keys] at h
    simp [h, hne]

mutual

theorem inspect_eq_nil_iff : (m : Machine) → ∀ {trail declared : List String},
    (inspect trail declared m).1 = [] ↔ m.Valid ∧ New declared m.stateNames
  | ⟨comment?, startAt, states, timeout?⟩, trail, declared => by
    rw [inspect_fst, List.append_eq_nil_iff, levelViolations_eq_nil_iff, stateNames,
      inspectStates_eq_nil_iff states, valid_iff]
    constructor
    · rintro ⟨hstart, hvalid, hinside, hnew⟩
      exact ⟨⟨⟨hstart, hvalid⟩, hinside⟩, hnew⟩
    · rintro ⟨⟨⟨hstart, hvalid⟩, hinside⟩, hnew⟩
      exact ⟨hstart, hvalid, hinside, hnew⟩

theorem inspectStates_eq_nil_iff : (states : List (String × State)) →
    ∀ {trail names declared : List String},
    (inspectStates trail names declared states).1 = [] ↔
      (∀ e ∈ states, e.2.Valid names) ∧ (∀ e ∈ states, e.2.ValidInside) ∧
        New declared (State.namesOf states)
  | [], trail, names, declared => by
    simp [inspectStates, State.namesOf, new_nil]
  | (name, state) :: rest, trail, names, declared => by
    rw [inspectStates_cons_fst, List.append_eq_nil_iff, List.append_eq_nil_iff,
      List.map_eq_nil_iff, State.defects_eq_nil_iff, inspectInside_eq_nil_iff state,
      inspectStates_eq_nil_iff rest, inspectInside_snd, State.namesOf, new_cons_append,
      List.forall_mem_cons, List.forall_mem_cons]
    constructor
    · rintro ⟨⟨⟨hname, hvalid⟩, hinside, hnew⟩, hvalid', hinside', hnew'⟩
      exact ⟨⟨hvalid, hvalid'⟩, ⟨hinside, hinside'⟩, hname, hnew, hnew'⟩
    · rintro ⟨⟨hvalid, hvalid'⟩, ⟨hinside, hinside'⟩, hname, hnew, hnew'⟩
      exact ⟨⟨⟨hname, hvalid⟩, hinside, hnew⟩, hvalid', hinside', hnew'⟩

theorem inspectInside_eq_nil_iff : (state : State) → ∀ {trail declared : List String},
    (inspectInside trail declared state).1 = [] ↔
      state.ValidInside ∧ New declared state.namesInside
  | .map _ (some m) _, trail, declared => by
    rw [inspectInside, State.namesInside, inspect_eq_nil_iff m]
    simp [State.ValidInside, State.inner?, processor?]
  | .map _ none (some m), trail, declared => by
    rw [inspectInside, State.namesInside, inspect_eq_nil_iff m]
    simp [State.ValidInside, State.inner?, processor?]
  | .map _ none none, trail, declared
  | .pass _, trail, declared
  | .task _, trail, declared
  | .wait _, trail, declared
  | .choice _, trail, declared
  | .fail _, trail, declared
  | .succeed _, trail, declared
  | .parallel _, trail, declared => by
    simp [inspectInside, State.namesInside, State.ValidInside, State.inner?, processor?, new_nil]

end

/-- **Every level of a machine without violations is valid.** -/
theorem levelValid_of_violations {m l : Machine} (h : m.violations = []) (hl : m.HasLevel l) :
    l.LevelValid :=
  ((inspect_eq_nil_iff m).mp h).1 l hl

/-- No two states of a machine without violations share a name, at whatever levels they stand. -/
theorem nodup_stateNames {m : Machine} (h : m.violations = []) : m.stateNames.Nodup :=
  ((inspect_eq_nil_iff m).mp h).2.1

/-- **No two tasks of a machine without violations have one name.** -/
theorem nodup_tasks {m : Machine} (h : m.violations = []) : (Entries.keys m.tasks).Nodup :=
  m.tasks_sublist.nodup (nodup_stateNames h)

/-- **A machine has no violations exactly when it is well formed**: every level by itself, and the
names of all levels together. -/
theorem violations_eq_nil_iff (m : Machine) : m.violations = [] ↔ m.WellFormed := by
  rw [violations, inspect_eq_nil_iff m]
  constructor
  · rintro ⟨hvalid, hnodup, -⟩
    exact ⟨fun l hl => (levelWellFormed_iff l).mpr (hvalid l hl), hnodup⟩
  · rintro ⟨hlevel, hnodup⟩
    refine ⟨fun l hl => (levelWellFormed_iff l).mp (hlevel l hl), hnodup, fun n _ => ?_⟩
    exact List.not_mem_nil

end Machine

end StateFlow
