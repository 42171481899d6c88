import StateFlow.Proofs.Machine.Levels

/-!
# The names of states across levels

Validation carries the names declared so far through all levels, so that no two states of a machine
share a name, at whatever levels they stand.  `Machine.stateNames` lists these names as validation
comes across them, and `Machine.inspect_snd` says that it declares them all, whatever it finds.

## Main definitions

* `State.inner?`: the machine that a Map state runs
* `Machine.stateNames`: the names of the states of all levels
* `Machine.LevelAt`: the levels by their depth

## Main results

* `Machine.mem_stateNames_iff`: these are the names of the states of the levels
* `Machine.LevelAt.depth_unique`: where all names are distinct, a name stands at one depth
* `Machine.inspect_snd`: validation declares the names of all levels
* `Machine.tasks_sublist`: the names of the tasks stand among them, in the same order
-/

namespace StateFlow

/-- The machine that a Map state runs for each item. -/
def State.inner? : State → Option Machine
  | .map _ itemProcessor? iterator? => processor? itemProcessor? iterator?
  | _ => none

mutual

/-- The names of the states of all levels of a machine; those inside a Map state follow its own. -/
def Machine.stateNames : Machine → List String
  | ⟨_, _, states, _⟩ => State.namesOf states

/-- The names of some states and of the states inside them. -/
def State.namesOf : List (String × State) → List String
  | [] => []
  | (name, state) :: rest => name :: (state.namesInside ++ State.namesOf rest)

/-- The names of the states inside a Map state. -/
def State.namesInside : State → List String
  | .map _ (some m) _ => m.stateNames
  | .map _ none (some m) => m.stateNames
  | _ => []

end

/-! ## Levels from the top -/

theorem State.inner?_eq_some {state : State} {inner : Machine} (h : state.inner? = some inner) :
    ∃ settings itemProcessor? iterator?, state = .map settings itemProcessor? iterator? ∧
      processor? itemProcessor? iterator? = some inner := by
  cases state with
  | map settings itemProcessor? iterator? => exact ⟨settings, itemProcessor?, iterator?, rfl, h⟩
  | _ => simp [inner?] at h

namespace Machine

theorem HasLevel.inside_of_inner? {m l inner : Machine} {e : String × State} (hl : m.HasLevel l)
    (he : e ∈ l.states) (hinner : e.2.inner? = some inner) : m.HasLevel inner := by
  obtain ⟨name, state⟩ := e
  obtain ⟨settings, itemProcessor?, iterator?, rfl, hp⟩ := State.inner?_eq_some hinner
  exact hl.inside he hp

theorem HasLevel.trans {m l k : Machine} (hl : m.HasLevel l) (hk : l.HasLevel k) :
    m.HasLevel k := by
  induction hk with
  | self => exact hl
  | inside _ hs hp ih => exact ih.inside hs hp

/-- A level of a machine is the machine itself or a level inside one of its Map states. -/
theorem hasLevel_iff {m l : Machine} : m.HasLevel l ↔
    l = m ∨ ∃ e ∈ m.states, ∃ inner, e.2.inner? = some inner ∧ inner.HasLevel l := by
  constructor
  · intro h
    induction h with
    | self => exact Or.inl rfl
    | inside _ hs hp ih =>
      right
      rcases ih with rfl | ⟨e, he, inner, hinner, hl⟩
      · exact ⟨_, hs, _, hp, HasLevel.self⟩
      · exact ⟨e, he, inner, hinner, hl.inside hs hp⟩
  · rintro (rfl | ⟨e, he, inner, hinner, hl⟩)
    · exact HasLevel.self
    · exact (HasLevel.self.inside_of_inner? he hinner).trans hl

end Machine

/-! ## Names and levels -/

theorem State.namesOf_cons (first : String × State) (rest : List (String × State)) :
    State.namesOf (first :: rest) = first.1 :: (first.2.namesInside ++ State.namesOf rest) := rfl

theorem State.namesInside_eq (state : State) :
    state.namesInside = (state.inner?.map Machine.stateNames).getD [] := by
  cases state with
  | map settings itemProcessor? iterator? =>
    cases itemProcessor? <;> cases iterator? <;> simp [namesInside, inner?, processor?]
  | _ => simp [namesInside, inner?]

theorem State.mem_namesInside {state : State} {name : String} :
    name ∈ state.namesInside ↔ ∃ inner, state.inner? = some inner ∧ name ∈ inner.stateNames := by
  rw [namesInside_eq]
  cases state.inner? <;> simp

theorem State.mem_namesOf {states : List (String × State)} {name : String} :
    name ∈ State.namesOf states ↔
      name ∈ Entries.keys states ∨ ∃ e ∈ states, name ∈ e.2.namesInside := by
  induction states with
  | nil => exact ⟨nofun, fun h => h.elim nofun nofun⟩
  | cons e rest ih =>
    rw [State.namesOf_cons, List.mem_cons, List.mem_append, ih]
    simp only [Entries.keys, List.map_cons, List.mem_cons, or_and_right, exists_or, exists_eq_left,
      or_assoc, or_left_comm]

section

variable {states : List (String × State)} {name : String} {e : String × State}

theorem State.mem_namesOf_of_inside (he : e ∈ states) (hname : name ∈ e.2.namesInside) :
    name ∈ State.namesOf states :=
  State.mem_namesOf.mpr (Or.inr ⟨e, he, hname⟩)

variable (hnodup : (State.namesOf states).Nodup)

include hnodup

theorem State.nodup_namesInside (he : e ∈ states) : e.2.namesInside.Nodup := by
  induction states with
  | nil => cases he
  | cons first rest ih =>
    rw [State.namesOf_cons, List.nodup_cons, List.nodup_append] at hnodup
    obtain ⟨-, hinside, hrest, -⟩ := hnodup
    rcases List.mem_cons.mp he with rfl | he
    · exact hinside
    · exact ih hrest he

/-- No name of a level is used again inside its states. -/
theorem State.not_mem_keys_of_inside (he : e ∈ states) (hname : name ∈ e.2.namesInside) :
    name ∉ Entries.keys states := by
  induction states with
  | nil => cases he
  | cons first rest ih =>
    rw [State.namesOf_cons, List.nodup_cons, List.nodup_append] at hnodup
    obtain ⟨hown, -, hrest, hdisjoint⟩ := hnodup
    intro hkey
    rcases List.mem_cons.mp he with rfl | he <;> rcases List.mem_cons.mp hkey with rfl | hkey
    · exact hown (List.mem_append_left _ hname)
    · exact hdisjoint name hname name (State.mem_namesOf.mpr (Or.inl hkey)) rfl
    · exact hown (List.mem_append_right _ (State.mem_namesOf_of_inside he hname))
    · exact ih hrest he hkey

/-- No name is used inside two states of a level. -/
theorem State.eq_of_inside {e' : String × State} (he : e ∈ states) (he' : e' ∈ states)
    (hname : name ∈ e.2.namesInside) (hname' : name ∈ e'.2.namesInside) : e = e' := by
  induction states with
  | nil => cases he
  | cons first rest ih =>
    rw [State.namesOf_cons, List.nodup_cons, List.nodup_append] at hnodup
    obtain ⟨-, -, hrest, hdisjoint⟩ := hnodup
    rcases List.mem_cons.mp he with hfirst | hmem <;>
      rcases List.mem_cons.mp he' with hfirst' | hmem'
    · rw [hfirst, hfirst']
    · rw [hfirst] at hname
      exact (hdisjoint name hname name (State.mem_namesOf_of_inside hmem' hname') rfl).elim
    · rw [hfirst'] at hname'
      exact (hdisjoint name hname' name (State.mem_namesOf_of_inside hmem hname) rfl).elim
    · exact ih hrest hmem hmem'

end

namespace Machine

theorem stateNames_eq (m : Machine) : m.stateNames = State.namesOf m.states := by
  obtain ⟨comment?, startAt, states, timeout?⟩ := m
  rfl

theorem mem_stateNames_of_key {m : Machine} {name : String} (h : name ∈ Entries.keys m.states) :
    name ∈ m.stateNames := by
  rw [stateNames_eq]
  exact State.mem_namesOf.mpr (Or.inl h)

/-- The names of a level are names of the machine. -/
theorem HasLevel.stateNames_subset {m l : Machine} (hl : m.HasLevel l) :
    l.stateNames ⊆ m.stateNames := by
  induction hl with
  | self => exact List.Subset.refl _
  | inside _ hs hp ih =>
    intro name hname
    refine ih ?_
    rw [stateNames_eq]
    exact State.mem_namesOf.mpr (Or.inr ⟨_, hs, State.mem_namesInside.mpr ⟨_, hp, hname⟩⟩)

mutual

theorem exists_level_of_mem : (m : Machine) → ∀ {name : String}, name ∈ m.stateNames →
    ∃ l, m.HasLevel l ∧ name ∈ Entries.keys l.states
  | ⟨comment?, startAt, states, timeout?⟩, name, h => by
    rw [stateNames] at h
    rcases exists_level_of_mem_namesOf states h with hkey | ⟨e, he, inner, hinner, l, hl, hname⟩
    · exact ⟨_, HasLevel.self, hkey⟩
    · exact ⟨l, hasLevel_iff.mpr (Or.inr ⟨e, he, inner, hinner, hl⟩), hname⟩

theorem exists_level_of_mem_namesOf : (states : List (String × State)) → ∀ {name : String},
    name ∈ State.namesOf states → name ∈ Entries.keys states ∨ ∃ e ∈ states, ∃ inner,
      e.2.inner? = some inner ∧ ∃ l, inner.HasLevel l ∧ name ∈ Entries.keys l.states
  | [], name, h => by simp [State.namesOf] at h
  | (own, state) :: rest, name, h => by
    rw [State.namesOf, List.mem_cons, List.mem_append] at h
    rcases h with rfl | h | h
    · exact Or.inl List.mem_cons_self
    · obtain ⟨inner, hinner, hlevel⟩ := exists_level_of_mem_namesInside state h
      exact Or.inr ⟨_, List.mem_cons_self, inner, hinner, hlevel⟩
    · rcases exists_level_of_mem_namesOf rest h with hkey | ⟨e, he, hinner⟩
      · exact Or.inl (List.mem_cons_of_mem _ hkey)
      · exact Or.inr ⟨e, List.mem_cons_of_mem _ he, hinner⟩

theorem exists_level_of_mem_namesInside : (state : State) → ∀ {name : String},
    name ∈ state.namesInside → ∃ inner, state.inner? = some inner ∧
      ∃ l, inner.HasLevel l ∧ name ∈ Entries.keys l.states
  | .map _ (some m) iterator?, name, h => ⟨m, rfl, exists_level_of_mem m h⟩
  | .map _ none (some m), name, h => ⟨m, rfl, exists_level_of_mem m h⟩
  | .map _ none none, name, h
  | .pass _, name, h
  | .task _, name, h
  | .wait _, name, h
  | .choice _, name, h
  | .fail _, name, h
  | .succeed _, name, h
  | .parallel _, name, h => by simp [State.namesInside] at h

end

/-- The names of a machine are the names of the states of its levels. -/
theorem mem_stateNames_iff {m : Machine} {name : String} :
    name ∈ m.stateNames ↔ ∃ l, m.HasLevel l ∧ name ∈ Entries.keys l.states := by
  constructor
  · exact exists_level_of_mem m
  · rintro ⟨l, hl, hname⟩
    exact hl.stateNames_subset (mem_stateNames_of_key hname)

/-! ## Names and depths -/

/-- The levels of a machine by their depth: so many Map states lead to them. -/
inductive LevelAt : Machine → Nat → Machine → Prop
  | top (m : Machine) : LevelAt m 0 m
  | inside {m inner l : Machine} {depth : Nat} {e : String × State} (he : e ∈ m.states)
      (hinner : e.2.inner? = some inner) (hl : LevelAt inner depth l) : LevelAt m (depth + 1) l

theorem LevelAt.hasLevel {m l : Machine} {depth : Nat} (hl : LevelAt m depth l) :
    m.HasLevel l := by
  induction hl with
  | top m => exact .self
  | inside he hinner _ ih => exact (HasLevel.self.inside_of_inner? he hinner).trans ih

theorem LevelAt.mem_namesInside {inner l : Machine} {depth : Nat} {e : String × State}
    {name : String} (hinner : e.2.inner? = some inner) (hl : LevelAt inner depth l)
    (hname : name ∈ Entries.keys l.states) : name ∈ e.2.namesInside :=
  State.mem_namesInside.mpr ⟨inner, hinner,
    hl.hasLevel.stateNames_subset (mem_stateNames_of_key hname)⟩

/-- **Where all names are distinct, a name stands at one depth.** -/
theorem LevelAt.depth_unique {m l l' : Machine} {depth depth' : Nat} {name : String}
    (hl : LevelAt m depth l) (hnodup : m.stateNames.Nodup) (hl' : LevelAt m depth' l')
    (hname : name ∈ Entries.keys l.states) (hname' : name ∈ Entries.keys l'.states) :
    depth = depth' := by
  induction hl generalizing depth' with
  | top m =>
    rw [stateNames_eq] at hnodup
    cases hl' with
    | top => rfl
    | inside he' hinner' hl' =>
      have hinside := hl'.mem_namesInside hinner' hname'
      exact (State.not_mem_keys_of_inside hnodup he' hinside hname).elim
  | @inside m inner l depth e he hinner hl ih =>
    rw [stateNames_eq] at hnodup
    have hinside := hl.mem_namesInside hinner hname
    cases hl' with
    | top => exact (State.not_mem_keys_of_inside hnodup he hinside hname').elim
    | @inside _ inner' _ _ e' he' hinner' hl' =>
      obtain rfl := State.eq_of_inside hnodup he he' hinside (hl'.mem_namesInside hinner' hname')
      obtain rfl : inner = inner' := Option.some.inj (hinner.symm.trans hinner')
      have hinner'' := State.nodup_namesInside hnodup he
      rw [State.namesInside_eq, hinner] at hinner''
      exact congrArg (· + 1) (ih hinner'' hl' hname)

/-! ## What validation declares -/

mutual

/-- Validation declares the names of all levels, the last one first. -/
theorem inspect_snd : (m : Machine) → ∀ (trail declared : List String),
    (inspect trail declared m).2 = m.stateNames.reverse ++ declared
  | ⟨comment?, startAt, states, timeout?⟩, trail, declared => by
    rw [inspect, stateNames]
    exact inspectStates_snd states trail _ declared

theorem inspectStates_snd : (states : List (String × State)) →
    ∀ (trail names declared : List String),
    (inspectStates trail names declared states).2 = (State.namesOf states).reverse ++ declared
  | [], trail, names, declared => by
    rw [inspectStates, State.namesOf]
    rfl
  | (name, state) :: rest, trail, names, declared => by
    rw [inspectStates, State.namesOf]
    dsimp only
    rw [inspectStates_snd rest, inspectInside_snd state]
    simp

theorem inspectInside_snd : (state : State) → ∀ (trail declared : List String),
    (inspectInside trail declared state).2 = state.namesInside.reverse ++ declared
  | .map _ (some m) _, trail, declared => by
    rw [inspectInside, State.namesInside]
    exact inspect_snd m trail declared
  | .map _ none (some m), trail, declared => by
    rw [inspectInside, State.namesInside]
    exact inspect_snd m trail declared
  | .map _ none none, trail, declared
  | .pass _, trail, declared
  | .task _, trail, declared
  | .wait _, trail, declared
  | .choice _, trail, declared
  | .fail _, trail, declared
  | .succeed _, trail, declared
  | .parallel _, trail, declared => rfl

end

/-! ## The names of tasks -/

mutual

/-- The names of the tasks of a machine stand among the names of its states. -/
theorem tasks_sublist : (m : Machine) → (Entries.keys m.tasks).Sublist m.stateNames
  | ⟨comment?, startAt, states, timeout?⟩ => by
    rw [tasks, stateNames]
    exact tasksOf_sublist states

theorem tasksOf_sublist : (states : List (String × State)) →
    (Entries.keys (State.tasksOf states)).Sublist (State.namesOf states)
  | [] => by
    rw [State.tasksOf]
    exact List.nil_sublist _
  | (name, state) :: rest => by
    rw [State.tasksOf, State.namesOf, Entries.keys, List.map_append, ← List.cons_append]
    exact (tasks_sublist_cons state name).append (tasksOf_sublist rest)

theorem tasks_sublist_cons : (state : State) → ∀ (name : String),
    (Entries.keys (State.tasks name state)).Sublist (name :: state.namesInside)
  | .map _ (some m) _, name => (tasks_sublist m).cons name
  | .map _ none (some m), name => (tasks_sublist m).cons name
  | .task _, name => List.Sublist.refl [name]
  | .map _ none none, _
  | .pass _, _
  | .wait _, _
  | .choice _, _
  | .fail _, _
  | .succeed _, _
  | .parallel _, _ => List.nil_sublist _

end

end Machine

end StateFlow
