import StateFlow.Proofs.Machine.Names

/-!
# References that lead nowhere

A level refers to its states by name: its start, the `Next` of a state, the `Next` of a choice rule,
and the `Default` of a Choice state.  Validation looks at each such reference by itself, so one that
names no state of its level is reported whatever else is wrong with the definition
(`Machine.mem_violations_of_references`).

One kind of reference is not looked at.  A state that gives both `Next` and `End` is reported for
that, and where its `Next` leads is left open.

## Main definitions

* `State.Refers`: the names that a state refers to
* `State.GivesBoth`: a state with both `Next` and `End`
* `Machine.LevelUnder`: the levels of a machine, with the Map states that lead to them
* `Machine.ownViolations`: the violations that a level shows read on its own

## Main results

* `Machine.mem_inspect_iff`: what is found at all levels is what each of them shows by itself
* `Machine.mem_violations_of_references`: the references that are reported
-/

namespace StateFlow

/-! ## References of a state -/

/-- The names that a state refers to.  A rule inside another one leads nowhere: what it names is
never gone to. -/
inductive State.Refers : State → String → Prop
  | next {state : State} {t : Transition} {target : String} (ht : state.transition? = some t)
      (hnext : t.next? = some target) : Refers state target
  | rule {s : ChoiceState} {rule : Rule} {target : String} (hrule : rule ∈ s.rules)
      (hnext : rule.next? = some target) : Refers (.choice s) target
  | byDefault {s : ChoiceState} {target : String} (h : s.default? = some target) :
      Refers (.choice s) target

/-- A state gives both `Next` and `End`. -/
def State.GivesBoth (state : State) : Prop :=
  ∃ t, state.transition? = some t ∧ t.ends = true ∧ t.next?.isSome

namespace State

section

variable {state : State} {t : Transition} (ht : state.transition? = some t)

include ht

theorem refers_iff_of_transition? (target : String) :
    state.Refers target ↔ t.next? = some target := by
  constructor
  · intro h
    cases h with
    | next ht' hnext => rwa [← Option.some.inj (ht.symm.trans ht')] at hnext
    | rule => cases ht
    | byDefault => cases ht
  · exact .next ht

theorem givesBoth_iff_of_transition? :
    state.GivesBoth ↔ t.ends = true ∧ t.next?.isSome := by
  rw [GivesBoth, ht]
  simp

end

theorem not_givesBoth_of_transition? {state : State} (ht : state.transition? = none) :
    ¬ state.GivesBoth := by
  rw [GivesBoth, ht]
  simp

theorem refers_choice_iff (s : ChoiceState) (target : String) : (choice s).Refers target ↔
    (∃ rule ∈ s.rules, rule.next? = some target) ∨ s.default? = some target := by
  constructor
  · rintro (⟨ht, -⟩ | ⟨hrule, hnext⟩ | hdefault)
    · cases ht
    · exact Or.inl ⟨_, hrule, hnext⟩
    · exact Or.inr hdefault
  · rintro (⟨rule, hrule, hnext⟩ | hdefault)
    · exact .rule hrule hnext
    · exact .byDefault hdefault

/-! ## What a state is reported for -/

/-- The defects of a state among the names of its level, earlier declarations aside. -/
def ownDefects (names : List String) (state : State) : List StateDefect :=
  (match state.transition? with | some t => transitionDefects names t | none => []) ++
    fieldDefects names state

variable {names : List String}

theorem mem_defects_iff {declared : List String} {name : String} {state : State}
    {d : StateDefect} (h : d ≠ .duplicate) :
    d ∈ defects names declared name state ↔ d ∈ ownDefects names state := by
  rw [defects, ownDefects, List.append_assoc, List.mem_append]
  refine or_iff_right ?_
  split <;> simp [h]

theorem mem_targetDefects_iff {next : String} {d : StateDefect} :
    d ∈ targetDefects names next ↔ d = .unknownTarget next ∧ next ∉ names := by
  unfold targetDefects
  split <;> simp_all

theorem unknownTarget_mem_targetDefects {next target : String} :
    .unknownTarget target ∈ targetDefects names next ↔ next = target ∧ target ∉ names := by
  rw [mem_targetDefects_iff, StateDefect.unknownTarget.injEq]
  constructor <;> (rintro ⟨rfl, h⟩; exact ⟨rfl, h⟩)

theorem unknownTarget_mem_transitionDefects {t : Transition} {target : String} :
    .unknownTarget target ∈ transitionDefects names t ↔
      (t.ends = false ∧ t.next? = some target) ∧ target ∉ names := by
  unfold transitionDefects
  cases t.next? <;> cases t.ends <;> simp [unknownTarget_mem_targetDefects]

theorem nextAndEnd_mem_transitionDefects {t : Transition} :
    .nextAndEnd ∈ transitionDefects names t ↔ t.ends = true ∧ t.next?.isSome := by
  unfold transitionDefects
  cases t.next? <;> cases t.ends <;> simp [mem_targetDefects_iff]

theorem unknownTarget_mem_ruleDefects {index : Nat} {rule : Rule} {target : String} :
    .unknownTarget target ∈ ruleDefects names index rule ↔
      rule.next? = some target ∧ target ∉ names := by
  rw [ruleDefects, List.mem_append, or_iff_left (by simp)]
  cases rule.next? <;> simp [unknownTarget_mem_targetDefects]

theorem nextAndEnd_not_mem_ruleDefects {index : Nat} {rule : Rule} :
    .nextAndEnd ∉ ruleDefects names index rule := by
  rw [ruleDefects, List.mem_append, or_iff_left (by simp)]
  cases rule.next? <;> simp [mem_targetDefects_iff]

/-- A defect that does not tell the rules apart is found where one of them has it. -/
theorem mem_rulesDefects_iff {d : StateDefect} {P : Rule → Prop}
    (h : ∀ index rule, d ∈ ruleDefects names index rule ↔ P rule) (rules : List Rule) :
    ∀ index, d ∈ rulesDefects names index rules ↔ ∃ rule ∈ rules, P rule := by
  induction rules with
  | nil => simp [rulesDefects]
  | cons rule rules ih =>
    intro index
    rw [rulesDefects, List.mem_append, h, ih]
    simp only [List.mem_cons, exists_eq_or_imp]

/-- What the fields of a state that has a transition can lack. -/
theorem mem_fieldDefects_cases {state : State} {t : Transition}
    (ht : state.transition? = some t) {d : StateDefect} (hd : d ∈ fieldDefects names state) :
    (∃ found, d = .delayCount found) ∨ d = .noProcessor ∨ d = .noResource := by
  cases state with
  | choice s => cases ht
  | wait s =>
    rw [fieldDefects] at hd
    split at hd
    · cases hd
    · exact Or.inl ⟨_, List.mem_singleton.mp hd⟩
  | task s =>
    rw [fieldDefects] at hd
    split at hd
    · exact Or.inr (Or.inr (List.mem_singleton.mp hd))
    · cases hd
  | map s itemProcessor? iterator? =>
    cases itemProcessor? <;> cases iterator? <;> simp_all [fieldDefects]
  | _ => cases hd

theorem unknownTarget_mem_choice {s : ChoiceState} {target : String} :
    .unknownTarget target ∈ fieldDefects names (.choice s) ↔
      (choice s).Refers target ∧ target ∉ names := by
  have hempty : .unknownTarget target ∉ if s.rules.isEmpty then [StateDefect.noRule] else [] := by
    split <;> simp
  have hrules : .unknownTarget target ∈ rulesDefects names 0 s.rules ↔
      ∃ rule ∈ s.rules, rule.next? = some target ∧ target ∉ names :=
    mem_rulesDefects_iff (fun _ _ => unknownTarget_mem_ruleDefects) s.rules 0
  rw [fieldDefects, List.mem_append, List.mem_append, or_iff_right hempty, hrules,
    refers_choice_iff]
  cases s.default? <;> grind [unknownTarget_mem_targetDefects]

theorem nextAndEnd_not_mem_choice {s : ChoiceState} :
    .nextAndEnd ∉ fieldDefects names (.choice s) := by
  have hempty : .nextAndEnd ∉ if s.rules.isEmpty then [StateDefect.noRule] else [] := by
    split <;> simp
  have hrules : .nextAndEnd ∈ rulesDefects names 0 s.rules ↔ ∃ rule ∈ s.rules, False :=
    mem_rulesDefects_iff (fun _ _ => iff_false_intro nextAndEnd_not_mem_ruleDefects) s.rules 0
  rw [fieldDefects, List.mem_append, List.mem_append, or_iff_right hempty, hrules]
  cases s.default? <;> simp [mem_targetDefects_iff]

/-- The references of a state that lead out of its level are found, unless it gives both `Next` and
`End`. -/
theorem unknownTarget_mem_ownDefects {state : State} {target : String} :
    .unknownTarget target ∈ ownDefects names state ↔
      (state.Refers target ∧ ¬ state.GivesBoth) ∧ target ∉ names := by
  cases ht : state.transition? with
  | some t =>
    have hfields : .unknownTarget target ∉ fieldDefects names state := fun h => by
      simpa using mem_fieldDefects_cases ht h
    rw [ownDefects, ht, List.mem_append, or_iff_left hfields, unknownTarget_mem_transitionDefects,
      refers_iff_of_transition? ht, givesBoth_iff_of_transition? ht]
    refine and_congr_left fun _ => ?_
    cases t.next? <;> cases t.ends <;> simp
  | none =>
    rw [ownDefects, ht, List.nil_append, and_iff_left (not_givesBoth_of_transition? ht)]
    cases state with
    | choice s => exact unknownTarget_mem_choice
    | fail s =>
      refine iff_of_false (by simp [fieldDefects]) ?_
      rintro ⟨⟨h, -⟩, -⟩
      cases h
    | succeed s =>
      refine iff_of_false (by simp [fieldDefects]) ?_
      rintro ⟨⟨h, -⟩, -⟩
      cases h
    | _ => cases ht

theorem nextAndEnd_mem_ownDefects {state : State} :
    .nextAndEnd ∈ ownDefects names state ↔ state.GivesBoth := by
  cases ht : state.transition? with
  | some t =>
    have hfields : .nextAndEnd ∉ fieldDefects names state := fun h => by
      simpa using mem_fieldDefects_cases ht h
    rw [ownDefects, ht, List.mem_append, or_iff_left hfields, nextAndEnd_mem_transitionDefects,
      givesBoth_iff_of_transition? ht]
  | none =>
    rw [ownDefects, ht, List.nil_append]
    refine iff_of_false ?_ (not_givesBoth_of_transition? ht)
    cases state with
    | choice s => exact nextAndEnd_not_mem_choice
    | fail s => simp [fieldDefects]
    | succeed s => simp [fieldDefects]
    | _ => cases ht

end State

/-! ## Levels and what they show -/

namespace Machine

/-- The levels of a machine, each with the names of the Map states that lead to it. -/
inductive LevelUnder : Machine → List String → Machine → Prop
  | top (m : Machine) : LevelUnder m [] m
  | inside {m inner l : Machine} {trail : List String} {e : String × State} (he : e ∈ m.states)
      (hinner : e.2.inner? = some inner) (hl : LevelUnder inner trail l) :
      LevelUnder m (e.1 :: trail) l

theorem LevelUnder.concat {m l inner : Machine} {trail : List String} (hl : m.LevelUnder trail l)
    {e : String × State} (he : e ∈ l.states) (hinner : e.2.inner? = some inner) :
    m.LevelUnder (trail ++ [e.1]) inner := by
  induction hl with
  | top m => exact .inside he hinner (.top inner)
  | inside he' hinner' _ ih => exact .inside he' hinner' (ih he)

/-- Every level of a machine stands under a trail. -/
theorem hasLevel_iff_exists_trail {m l : Machine} :
    m.HasLevel l ↔ ∃ trail, m.LevelUnder trail l := by
  constructor
  · intro h
    induction h with
    | self => exact ⟨[], .top m⟩
    | inside _ hs hp ih =>
      obtain ⟨trail, hl⟩ := ih
      exact ⟨_, hl.concat hs hp⟩
  · rintro ⟨trail, h⟩
    induction h with
    | top m => exact .self
    | inside he hinner _ ih => exact (HasLevel.self.inside_of_inner? he hinner).trans ih

/-- The violations that a level shows read on its own. -/
def ownViolations (trail : List String) (l : Machine) : List Violation :=
  levelViolations trail l ++ l.states.flatMap fun e =>
    (State.ownDefects (Entries.keys l.states) e.2).map (.defect trail e.1)

/-- A level at or below a machine shows a violation; the machine stands under a trail itself. -/
def Shows (m : Machine) (trail : List String) (v : Violation) : Prop :=
  ∃ rest l, m.LevelUnder rest l ∧ v ∈ l.ownViolations (trail ++ rest)

theorem shows_iff {m : Machine} {trail : List String} {v : Violation} :
    m.Shows trail v ↔ v ∈ m.ownViolations trail ∨
      ∃ e ∈ m.states, ∃ inner, e.2.inner? = some inner ∧ inner.Shows (trail ++ [e.1]) v := by
  constructor
  · rintro ⟨rest, l, hl, hv⟩
    cases hl with
    | top => exact Or.inl (by rwa [List.append_nil] at hv)
    | @inside _ inner _ rest e he hinner hl =>
      exact Or.inr ⟨e, he, inner, hinner, rest, l, hl, by rwa [List.append_assoc]⟩
  · rintro (hv | ⟨e, he, inner, hinner, rest, l, hl, hv⟩)
    · exact ⟨[], m, .top m, by rwa [List.append_nil]⟩
    · exact ⟨e.1 :: rest, l, .inside he hinner hl, by rwa [List.append_assoc] at hv⟩

variable {v : Violation}

mutual

/-- **What is found at all levels is what each of them shows by itself**, repeated names aside. -/
theorem mem_inspect_iff (hv : ∀ trail name, v ≠ .defect trail name .duplicate) :
    (m : Machine) → ∀ {trail declared : List String},
      v ∈ (inspect trail declared m).1 ↔ m.Shows trail v
  | ⟨comment?, startAt, states, timeout?⟩, trail, declared => by
    rw [inspect_fst, List.mem_append, mem_inspectStates_iff hv states, shows_iff, ownViolations,
      List.mem_append, List.mem_flatMap, or_assoc]

theorem mem_inspectStates_iff (hv : ∀ trail name, v ≠ .defect trail name .duplicate) :
    (states : List (String × State)) → ∀ {trail names declared : List String},
      v ∈ (inspectStates trail names declared states).1 ↔
        (∃ e ∈ states, v ∈ (State.ownDefects names e.2).map (.defect trail e.1)) ∨
          ∃ e ∈ states, ∃ inner, e.2.inner? = some inner ∧ inner.Shows (trail ++ [e.1]) v
  | [], trail, names, declared => by simp [inspectStates]
  | (name, state) :: rest, trail, names, declared => by
    have hown : v ∈ (State.defects names declared name state).map (.defect trail name) ↔
        v ∈ (State.ownDefects names state).map (.defect trail name) := by
      simp only [List.mem_map]
      refine exists_congr fun d => and_congr_left fun heq => State.mem_defects_iff ?_
      rintro rfl
      exact hv _ _ heq.symm
    rw [inspectStates_cons_fst, List.mem_append, List.mem_append, hown,
      mem_inspectInside_iff hv state, mem_inspectStates_iff hv rest]
    simp only [List.mem_cons, exists_eq_or_imp]
    exact or_or_or_comm

theorem mem_inspectInside_iff (hv : ∀ trail name, v ≠ .defect trail name .duplicate) :
    (state : State) → ∀ {trail declared : List String},
      v ∈ (inspectInside trail declared state).1 ↔
        ∃ inner, state.inner? = some inner ∧ inner.Shows trail v
  | .map _ (some m) _, trail, declared => by
    rw [inspectInside, mem_inspect_iff hv m]
    simp [State.inner?, processor?]
  | .map _ none (some m), trail, declared => by
    rw [inspectInside, mem_inspect_iff hv m]
    simp [State.inner?, processor?]
  | .map _ none none, trail, declared
  | .pass _, trail, declared
  | .task _, trail, declared
  | .wait _, trail, declared
  | .choice _, trail, declared
  | .fail _, trail, declared
  | .succeed _, trail, declared
  | .parallel _, trail, declared => by
    simp [inspectInside, State.inner?, processor?]

end

/-! ## The references that are reported -/

section

variable {l : Machine} {trail own : List String} {name : String}

theorem unknownStart_mem_ownViolations :
    .unknownStart own name ∈ l.ownViolations trail ↔
      own = trail ∧ l.startAt = name ∧ name ∉ Entries.keys l.states := by
  rw [ownViolations, List.mem_append, levelViolations, or_iff_left (by simp), List.mem_append,
    or_iff_right (by split <;> simp)]
  split
  · grind
  · grind

theorem defect_mem_ownViolations {d : StateDefect} :
    .defect own name d ∈ l.ownViolations trail ↔ own = trail ∧
      ∃ state, (name, state) ∈ l.states ∧ d ∈ State.ownDefects (Entries.keys l.states) state := by
  have hlevel : .defect own name d ∉ levelViolations trail l := by
    rw [levelViolations, List.mem_append, not_or]
    constructor <;> split <;> simp
  rw [ownViolations, List.mem_append, or_iff_right hlevel, List.mem_flatMap]
  constructor
  · rintro ⟨e, he, hd⟩
    obtain ⟨d', hd', heq⟩ := List.mem_map.mp hd
    cases heq
    exact ⟨rfl, e.2, he, hd'⟩
  · rintro ⟨rfl, state, he, hd⟩
    exact ⟨_, he, List.mem_map_of_mem hd⟩

end

/-- What a machine is reported for, repeated names aside, is what one of its levels shows. -/
theorem mem_violations_iff {m : Machine} {v : Violation}
    (hv : ∀ trail name, v ≠ .defect trail name .duplicate) :
    v ∈ m.violations ↔ ∃ trail l, m.LevelUnder trail l ∧ v ∈ l.ownViolations trail := by
  rw [violations, mem_inspect_iff hv, Shows]
  simp only [List.nil_append]

theorem unknownStart_mem_violations {m : Machine} {trail : List String} {start : String} :
    .unknownStart trail start ∈ m.violations ↔
      ∃ l, m.LevelUnder trail l ∧ l.startAt = start ∧ start ∉ Entries.keys l.states := by
  rw [mem_violations_iff (v := .unknownStart trail start) nofun]
  simp only [unknownStart_mem_ownViolations]
  constructor
  · rintro ⟨_, l, hl, rfl, h⟩
    exact ⟨l, hl, h⟩
  · rintro ⟨l, hl, h⟩
    exact ⟨_, l, hl, rfl, h⟩

theorem defect_mem_violations {m : Machine} {trail : List String} {name : String}
    {d : StateDefect} (hd : d ≠ .duplicate) :
    .defect trail name d ∈ m.violations ↔ ∃ l state, m.LevelUnder trail l ∧
      (name, state) ∈ l.states ∧ d ∈ State.ownDefects (Entries.keys l.states) state := by
  rw [mem_violations_iff fun _ _ heq => hd (Violation.defect.inj heq).2.2]
  simp only [defect_mem_ownViolations]
  constructor
  · rintro ⟨_, l, hl, rfl, state, he, h⟩
    exact ⟨l, state, hl, he, h⟩
  · rintro ⟨l, state, hl, he, h⟩
    exact ⟨_, l, hl, rfl, state, he, h⟩

/-- **The references that are reported.**  At every level, the top one and those that Map states
run, the start is reported exactly when it names no state of the level.  So is each name that a
state refers to by `Next`, by a rule or by `Default`, unless the state gives both `Next` and `End`:
then that is what it is reported for.  No other violation, of the state or elsewhere, has a part in
it. -/
theorem mem_violations_of_references (m : Machine) :
    (∀ l, m.HasLevel l ↔ ∃ trail, m.LevelUnder trail l) ∧
    (∀ trail start, .unknownStart trail start ∈ m.violations ↔
      ∃ l, m.LevelUnder trail l ∧ l.startAt = start ∧ start ∉ Entries.keys l.states) ∧
    (∀ trail name target, .defect trail name (.unknownTarget target) ∈ m.violations ↔
      ∃ l state, m.LevelUnder trail l ∧ (name, state) ∈ l.states ∧
        (state.Refers target ∧ ¬ state.GivesBoth) ∧ target ∉ Entries.keys l.states) ∧
    ∀ trail name, .defect trail name .nextAndEnd ∈ m.violations ↔
      ∃ l state, m.LevelUnder trail l ∧ (name, state) ∈ l.states ∧ state.GivesBoth := by
  refine ⟨fun l => hasLevel_iff_exists_trail, fun trail start => unknownStart_mem_violations,
    fun trail name target => ?_, fun trail name => ?_⟩
  · rw [defect_mem_violations (d := .unknownTarget target) nofun]
    simp only [State.unknownTarget_mem_ownDefects]
  · rw [defect_mem_violations (d := .nextAndEnd) nofun]
    simp only [State.nextAndEnd_mem_ownDefects]

/-- A machine whose one state leads to a state that does not exist and ends the execution, too. -/
def contradicting : Machine where
  comment? := none
  startAt := "A"
  states := [("A", .pass ⟨none, .absent, none, .absent, .absent, ⟨some "Ghost", true⟩⟩)]
  timeout? := none

/-- **What `Next` names is not reported beside `End`.** -/
theorem violations_contradicting :
    (∃ state, ("A", state) ∈ contradicting.states ∧ state.Refers "Ghost") ∧
      "Ghost" ∉ Entries.keys contradicting.states ∧
      contradicting.violations = [.defect [] "A" .nextAndEnd] :=
  ⟨⟨_, List.mem_singleton.mpr rfl, .next rfl rfl⟩, by decide, by decide +kernel⟩

end Machine

end StateFlow
