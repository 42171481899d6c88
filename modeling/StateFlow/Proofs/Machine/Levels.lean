import StateFlow.Machine.Tasks
import StateFlow.Machine.Validation

/-!
# The levels of a machine

A machine and the machines that its Map states run for their items, at any depth, are its levels.
What a walk through a level needs is a condition on that level alone, `Machine.LevelValid`: the
level has a start, leads nowhere outside itself, and none of its states lacks what its kind needs.
A state without defects is valid, and its name is new (`State.defects_eq_nil_iff`).

## Main definitions

* `Machine.HasLevel m l`: the machine `l` is a level of `m`
* `State.targets`: the states that a state may lead to
* `State.Valid`, `Machine.LevelValid`: what validation asks of a state and of a level

## Main results

* `State.defects_eq_nil_iff`: the states that validation finds nothing wrong with
* `Machine.HasLevel.tasks_subset`: the tasks of a level are among those of the machine
-/

namespace StateFlow

/-- The levels of a machine: itself, and the machines that run inside its levels. -/
inductive Machine.HasLevel (m : Machine) : Machine → Prop
  | self : HasLevel m m
  | inside {l inner : Machine} {name : String} {settings : MapSettings}
      {itemProcessor? iterator? : Option Machine} (hl : HasLevel m l)
      (hs : (name, State.map settings itemProcessor? iterator?) ∈ l.states)
      (hp : processor? itemProcessor? iterator? = some inner) : HasLevel m inner

/-! ## Where a state leads -/

/-- The states that a `Next` and `End` pair leads to. -/
def Transition.targets (t : Transition) : List String := if t.ends then [] else t.next?.toList

/-- The states that a state may lead to. -/
def State.targets : State → List String
  | .choice s => s.rules.filterMap Rule.next? ++ s.default?.toList
  | state => (state.transition?.map Transition.targets).getD []

/-! ## What validation asks of a level -/

/-- Exactly one of `Next` and `End` is given, and `Next` names a state of the level. -/
def Transition.Valid (names : List String) (t : Transition) : Prop :=
  match t.next?, t.ends with
  | some next, false => next ∈ names
  | none, true => True
  | _, _ => False

mutual

/-- Every single test in a rule names what it compares. -/
def Rule.NamesSubjects : Rule → Prop
  | .and _ rules | .or _ rules => Rule.AllNameSubjects rules
  | .not _ rule => rule.NamesSubjects
  | .test frame _ => frame.subject?.isSome

/-- The same for several rules. -/
def Rule.AllNameSubjects : List Rule → Prop
  | [] => True
  | r :: rs => r.NamesSubjects ∧ Rule.AllNameSubjects rs

end

/-- A rule of a Choice state leads to a state of the level, and its tests name what they compare. -/
def Rule.Valid (names : List String) (r : Rule) : Prop :=
  (∃ next ∈ names, r.next? = some next) ∧ r.NamesSubjects

/-- A state has what its kind needs, and leads to states of the level only. -/
def State.Valid (names : List String) : State → Prop
  | .pass s => s.transition.Valid names
  | .task s => s.transition.Valid names ∧ Text.trim s.resource.toList ≠ []
  | .wait s => s.transition.Valid names ∧ s.delays.length = 1
  | .choice s =>
    s.rules ≠ [] ∧ (∀ r ∈ s.rules, r.Valid names) ∧ ∀ next, s.default? = some next → next ∈ names
  | .fail _ | .succeed _ => True
  | .map s itemProcessor? iterator? =>
    s.transition.Valid names ∧ (processor? itemProcessor? iterator?).isSome
  | .parallel s => s.transition.Valid names

/-- A level has a start, and all its states are valid. -/
structure Machine.LevelValid (m : Machine) : Prop where
  start_mem : m.startAt ∈ Entries.keys m.states
  valid : ∀ e ∈ m.states, e.2.Valid (Entries.keys m.states)

/-! ## From no defects to validity -/

namespace Rule

theorem allNameSubjects_iff (rules : List Rule) :
    AllNameSubjects rules ↔ ∀ r ∈ rules, r.NamesSubjects := by
  induction rules with
  | nil => simp [AllNameSubjects]
  | cons r rules ih => rw [AllNameSubjects, ih, List.forall_mem_cons]

theorem allWithoutVariable_eq_flatMap (rules : List Rule) :
    allWithoutVariable rules = rules.flatMap withoutVariable := by
  induction rules with
  | nil => rfl
  | cons r rules ih => rw [allWithoutVariable, ih, List.flatMap_cons]

theorem withoutVariable_eq_nil_iff (rule : Rule) :
    rule.withoutVariable = [] ↔ rule.NamesSubjects := by
  induction rule using Rule.induction with
  | and frame rules ih | or frame rules ih =>
    rw [withoutVariable, NamesSubjects, allWithoutVariable_eq_flatMap, allNameSubjects_iff,
      List.flatMap_eq_nil_iff]
    exact forall₂_congr ih
  | not frame rule ih => rwa [withoutVariable, NamesSubjects]
  | test frame t =>
    rw [withoutVariable, NamesSubjects]
    cases frame.subject? <;> simp

end Rule

namespace State

theorem targetDefects_eq_nil_iff (names : List String) (target : String) :
    targetDefects names target = [] ↔ target ∈ names := by
  unfold targetDefects
  split <;> simp_all

theorem transitionDefects_eq_nil_iff (names : List String) (t : Transition) :
    transitionDefects names t = [] ↔ t.Valid names := by
  unfold transitionDefects Transition.Valid
  cases t.next? <;> cases t.ends <;> simp [targetDefects_eq_nil_iff]

theorem ruleDefects_eq_nil_iff (names : List String) (index : Nat) (r : Rule) :
    ruleDefects names index r = [] ↔ r.Valid names := by
  unfold ruleDefects Rule.Valid
  rw [List.append_eq_nil_iff, List.map_eq_nil_iff, Rule.withoutVariable_eq_nil_iff]
  cases r.next? <;> simp [targetDefects_eq_nil_iff]

theorem rulesDefects_eq_nil_iff (names : List String) (rules : List Rule) :
    ∀ index, rulesDefects names index rules = [] ↔ ∀ r ∈ rules, r.Valid names := by
  induction rules with
  | nil => simp [rulesDefects]
  | cons r rs ih =>
    intro index
    rw [rulesDefects, List.append_eq_nil_iff, ruleDefects_eq_nil_iff, ih, List.forall_mem_cons]

/-- A state of a level has no defects exactly when its name is new and the state is valid. -/
theorem defects_eq_nil_iff (names declared : List String) (name : String) (state : State) :
    defects names declared name state = [] ↔ name ∉ declared ∧ state.Valid names := by
  have hname : (if name ∈ declared then [StateDefect.duplicate] else []) = [] ↔
      name ∉ declared := by
    split <;> simp_all
  rw [defects, List.append_eq_nil_iff, List.append_eq_nil_iff, hname, and_assoc]
  refine and_congr_right fun _ => ?_
  cases state with
  | pass s => simp [transition?, fieldDefects, Valid, transitionDefects_eq_nil_iff]
  | task s => simp [transition?, fieldDefects, Valid, transitionDefects_eq_nil_iff]
  | wait s => simp [transition?, fieldDefects, Valid, transitionDefects_eq_nil_iff]
  | choice s =>
    simp only [transition?, fieldDefects, Valid, List.append_eq_nil_iff, rulesDefects_eq_nil_iff]
    cases s.default? <;> simp [targetDefects_eq_nil_iff, and_assoc]
  | fail s => simp [transition?, fieldDefects, Valid]
  | succeed s => simp [transition?, fieldDefects, Valid]
  | map s itemProcessor? iterator? =>
    cases itemProcessor? <;> cases iterator? <;>
      simp [transition?, fieldDefects, Valid, processor?, transitionDefects_eq_nil_iff]
  | parallel s => simp [transition?, fieldDefects, Valid, transitionDefects_eq_nil_iff]

end State

/-! ## The findings of a level -/

namespace Machine

theorem inspect_fst (trail declared : List String) (m : Machine) :
    (inspect trail declared m).1 = levelViolations trail m ++
      (inspectStates trail (Entries.keys m.states) declared m.states).1 := by
  obtain ⟨comment?, startAt, states, timeout?⟩ := m
  rw [inspect]

theorem inspectStates_cons_fst (trail names declared : List String) (name : String) (state : State)
    (rest : List (String × State)) :
    (inspectStates trail names declared ((name, state) :: rest)).1 =
      (State.defects names declared name state).map (.defect trail name) ++
        (inspectInside (trail ++ [name]) (name :: declared) state).1 ++
        (inspectStates trail names
          (inspectInside (trail ++ [name]) (name :: declared) state).2 rest).1 := by
  rw [inspectStates]

namespace LevelValid

variable {m : Machine}

theorem start_known (h : m.LevelValid) : (m.state? m.startAt).isSome :=
  (Entries.mem_keys_iff ..).mp h.start_mem

theorem valid_of_state? (h : m.LevelValid) {name : String} {state : State}
    (hs : m.state? name = some state) : state.Valid (Entries.keys m.states) :=
  h.valid _ (Entries.mem_of_get? hs)

end LevelValid

end Machine

theorem Transition.Valid.mem_of_targets {names : List String} {t : Transition} (h : t.Valid names)
    {next : String} (hn : next ∈ t.targets) : next ∈ names := by
  unfold Transition.Valid at h
  unfold Transition.targets at hn
  cases hnext : t.next? <;> cases hends : t.ends <;> simp_all

/-- A valid state leads to states of its level. -/
theorem State.Valid.mem_of_targets {names : List String} {state : State} (h : state.Valid names)
    {next : String} (hn : next ∈ state.targets) : next ∈ names := by
  cases state with
  | pass s => exact Transition.Valid.mem_of_targets h hn
  | task s => exact Transition.Valid.mem_of_targets h.1 hn
  | wait s => exact Transition.Valid.mem_of_targets h.1 hn
  | choice s =>
    rcases List.mem_append.mp hn with hn | hn
    · obtain ⟨r, hr, hrn⟩ := List.mem_filterMap.mp hn
      obtain ⟨⟨next', hmem, hnext'⟩, -⟩ := h.2.1 r hr
      exact Option.some.inj (hnext'.symm.trans hrn) ▸ hmem
    · exact h.2.2 next (Option.mem_toList.mp hn)
  | fail s => simp [targets, transition?] at hn
  | succeed s => simp [targets, transition?] at hn
  | map s _ _ => exact Transition.Valid.mem_of_targets h.1 hn
  | parallel s => exact Transition.Valid.mem_of_targets h hn

/-- A target in a valid level is a state of it. -/
theorem Machine.LevelValid.known_of_targets {m : Machine} (h : m.LevelValid) {name next : String}
    {state : State} (hs : m.state? name = some state) (hn : next ∈ state.targets) :
    (m.state? next).isSome :=
  (Entries.mem_keys_iff ..).mp ((h.valid_of_state? hs).mem_of_targets hn)

/-! ## The tasks of a level -/

theorem State.tasksOf_eq_flatMap (states : List (String × State)) :
    State.tasksOf states = states.flatMap fun e => State.tasks e.1 e.2 := by
  induction states with
  | nil => rw [State.tasksOf]; rfl
  | cons e rest ih => rw [State.tasksOf, ih, List.flatMap_cons]

theorem Machine.mem_tasks_iff {m : Machine} {p : String × TaskState} :
    p ∈ m.tasks ↔ ∃ e ∈ m.states, p ∈ State.tasks e.1 e.2 := by
  obtain ⟨comment?, startAt, states, timeout?⟩ := m
  rw [Machine.tasks, State.tasksOf_eq_flatMap, List.mem_flatMap]

theorem State.tasks_map {name : String} {settings : MapSettings}
    {itemProcessor? iterator? : Option Machine} {inner : Machine}
    (hp : processor? itemProcessor? iterator? = some inner) :
    State.tasks name (.map settings itemProcessor? iterator?) = inner.tasks := by
  cases itemProcessor? <;> cases iterator? <;> simp_all [processor?, State.tasks]

/-- The tasks of a level are tasks of the machine. -/
theorem Machine.HasLevel.tasks_subset {m l : Machine} (hl : m.HasLevel l) : l.tasks ⊆ m.tasks := by
  induction hl with
  | self => exact List.Subset.refl _
  | inside _ hs hp ih =>
    intro p hmem
    exact ih (Machine.mem_tasks_iff.mpr ⟨_, hs, (State.tasks_map hp).symm ▸ hmem⟩)

theorem Machine.HasLevel.task_mem {m l : Machine} (hl : m.HasLevel l) {name : String}
    {task : TaskState} (hs : l.state? name = some (.task task)) : (name, task) ∈ m.tasks := by
  refine hl.tasks_subset (Machine.mem_tasks_iff.mpr ⟨_, Entries.mem_of_get? hs, ?_⟩)
  simp [State.tasks]

end StateFlow
