import Mathlib.Algebra.GroupWithZero.Nat
import Mathlib.Data.List.Nodup
import Mathlib.Data.List.TakeWhile
import StateFlow.Proofs.Manifest.Loading

/-!
# When a text is a manifest, and what the manifest holds

A text is a manifest exactly when it declares one, its options can be read, and each of its
definitions makes a machine: the definition is read with its references resolved, is valid, and each
of its Task states names a declared function whose handler splits at its last point.

The manifest then holds these machines in the order of the text, and one binding for each of their
Task states, found at any depth of Map states.  Since the names of a machine's states are distinct
through all its levels, no binding is recorded over another, so the table has as many bindings as
there are Task states.

## Main definitions

* `Binding.Splits`: what a handler is split into
* `Machine.HasTask`: the Task states of a machine at any depth
* `Declarations.Binds`, `Declarations.Makes`: what declarations ask of a task and of a definition
* `Manifest.Holds`: what a manifest holds of its declarations

## Main results

* `Manifest.holds_of_read`: when a text is a manifest, and what the manifest holds
* `Manifest.read_unused`: the handler of a function that no task names need not split
-/

namespace StateFlow

/-! ## Handlers -/

theorem splitAtLast?_append {c : Char} (before : List Char) {after : List Char} (h : c ∉ after) :
    splitAtLast? c (before ++ c :: after) = some (before, after) := by
  have hreverse : (before ++ c :: after).reverse = after.reverse ++ c :: before.reverse := by simp
  have htake : (after.reverse ++ c :: before.reverse).takeWhile (· ≠ c) = after.reverse := by
    have hall : ∀ x ∈ after.reverse, decide (x ≠ c) = true := by
      intro x hx
      exact decide_eq_true fun heq => h (heq ▸ List.mem_reverse.mp hx)
    rw [List.takeWhile_append_of_pos hall, List.takeWhile_cons_of_neg (by simp), List.append_nil]
  simp only [splitAtLast?, hreverse, htake, List.drop_left, List.reverse_reverse]

theorem splitAtLast?_of_not_mem {c : Char} {cs : List Char} (h : c ∉ cs) :
    splitAtLast? c cs = none := by
  have htake : cs.reverse.takeWhile (· ≠ c) = cs.reverse := by
    refine List.takeWhile_eq_self_iff.mpr fun x hx => ?_
    exact decide_eq_true fun heq => h (heq ▸ List.mem_reverse.mp hx)
  simp only [splitAtLast?, htake, List.drop_length]

theorem splitAtLast?_eq_some_iff {c : Char} {cs before after : List Char} :
    splitAtLast? c cs = some (before, after) ↔ cs = before ++ c :: after ∧ c ∉ after := by
  constructor
  · intro h
    by_cases hmem : c ∈ cs
    · obtain ⟨xs, ys, hreverse, hnot⟩ := List.eq_append_cons_of_mem (List.mem_reverse.mpr hmem)
      have hcs : cs = ys.reverse ++ c :: xs.reverse := by
        rw [← List.reverse_reverse cs, hreverse]
        simp
      have hnot' : c ∉ xs.reverse := by simpa using hnot
      rw [hcs, splitAtLast?_append _ hnot'] at h
      cases h
      exact ⟨hcs, hnot'⟩
    · rw [splitAtLast?_of_not_mem hmem] at h
      cases h
  · rintro ⟨rfl, hnot⟩
    exact splitAtLast?_append before hnot

/-- A handler splits at its last point into a module and an entry, both of them there. -/
structure Binding.Splits (b : Binding) (handler : String) : Prop where
  text : handler = b.text
  last : '.' ∉ b.entryName.toList
  modulePath_ne : b.modulePath ≠ ""
  entryName_ne : b.entryName ≠ ""

theorem Binding.ofHandler?_eq_some_iff {handler : String} {b : Binding} :
    Binding.ofHandler? handler = some b ↔ b.Splits handler := by
  obtain ⟨modulePath, entryName⟩ := b
  constructor
  · intro h
    unfold ofHandler? at h
    split at h
    · next c cs d ds hsplit =>
      cases h
      obtain ⟨htext, hlast⟩ := splitAtLast?_eq_some_iff.mp hsplit
      refine ⟨?_, by simpa using hlast, by simp [← String.toList_inj],
        by simp [← String.toList_inj]⟩
      rw [← String.toList_inj, htext]
      simp [Binding.text]
    · cases h
  · rintro ⟨htext, hlast, hmodule, hentry⟩
    have hsplit : splitAtLast? '.' handler.toList = some (modulePath.toList, entryName.toList) := by
      refine splitAtLast?_eq_some_iff.mpr ⟨?_, hlast⟩
      rw [htext]
      simp [Binding.text]
    obtain ⟨c, cs, hc⟩ := List.exists_cons_of_ne_nil (mt String.toList_eq_nil_iff.mp hmodule)
    obtain ⟨d, ds, hd⟩ := List.exists_cons_of_ne_nil (mt String.toList_eq_nil_iff.mp hentry)
    rw [hc, hd] at hsplit
    simp only [ofHandler?, hsplit]
    rw [← hc, ← hd, String.ofList_toList, String.ofList_toList]

/-! ## Task states at any depth -/

/-- A Task state of a machine, at its own level or inside its Map states at any depth. -/
def Machine.HasTask (m : Machine) (state : String) (task : TaskState) : Prop :=
  ∃ l, m.HasLevel l ∧ (state, .task task) ∈ l.states

mutual

theorem Machine.hasTask_of_tasks {root : Machine} {state : String} {task : TaskState} :
    (m : Machine) → root.HasLevel m → (state, task) ∈ m.tasks → root.HasTask state task
  | ⟨comment?, startAt, states, timeout?⟩, hlevel, h => by
    rw [Machine.tasks] at h
    exact State.hasTask_of_tasksOf states hlevel (fun _ he => he) h

theorem State.hasTask_of_tasksOf {root l : Machine} {state : String} {task : TaskState} :
    (states : List (String × State)) → root.HasLevel l → states ⊆ l.states →
      (state, task) ∈ State.tasksOf states → root.HasTask state task
  | [], _, _, h => by
    rw [State.tasksOf] at h
    cases h
  | (name, first) :: rest, hlevel, hsubset, h => by
    rw [State.tasksOf] at h
    rcases List.mem_append.mp h with h | h
    · exact State.hasTask_of_tasks first hlevel (hsubset List.mem_cons_self) h
    · exact State.hasTask_of_tasksOf rest hlevel
        (fun _ he => hsubset (List.mem_cons_of_mem _ he)) h

theorem State.hasTask_of_tasks {root l : Machine} {name state : String} {task : TaskState} :
    (s : State) → root.HasLevel l → (name, s) ∈ l.states → (state, task) ∈ State.tasks name s →
      root.HasTask state task
  | .task t, hlevel, hs, h => by
    rw [State.tasks] at h
    cases List.mem_singleton.mp h
    exact ⟨l, hlevel, hs⟩
  | .map _ (some m) _, hlevel, hs, h => by
    rw [State.tasks] at h
    exact Machine.hasTask_of_tasks m (hlevel.inside hs rfl) h
  | .map _ none (some m), hlevel, hs, h => by
    rw [State.tasks] at h
    exact Machine.hasTask_of_tasks m (hlevel.inside hs rfl) h
  | .map _ none none, _, _, h | .pass _, _, _, h | .wait _, _, _, h | .choice _, _, _, h
  | .fail _, _, _, h | .succeed _, _, _, h | .parallel _, _, _, h => by
    simp [State.tasks] at h

end

/-- Loading goes through all Task states of a machine, and through no others. -/
theorem Machine.mem_tasks_iff_hasTask {m : Machine} {state : String} {task : TaskState} :
    (state, task) ∈ m.tasks ↔ m.HasTask state task := by
  constructor
  · exact Machine.hasTask_of_tasks m .self
  · rintro ⟨l, hlevel, hs⟩
    exact hlevel.tasks_subset (Machine.mem_tasks_iff.mpr ⟨_, hs, by simp [State.tasks]⟩)

/-! ## What declarations ask -/

namespace Declarations

/-- The binding that declarations give to a task: the task names a function that is declared, and
its handler splits. -/
def Binds (d : Declarations) (task : TaskState) (b : Binding) : Prop :=
  ∃ function handler, task.functionName = .ok function ∧
    Entries.get? d.handlers function = some handler ∧ b.Splits handler

/-- A definition makes a machine: it is read with its references resolved, is valid, and each of its
Task states is bound. -/
structure Makes (d : Declarations) (definition : Json) (machine : Machine) : Prop where
  read : Machine.read definition.resolveReferences = .ok machine
  valid : machine.violations = []
  bound : ∀ state task, machine.HasTask state task → ∃ b, d.Binds task b

end Declarations

namespace Manifest

variable {d : Declarations}

theorem bindingOf_eq_ok_iff {machine state : String} {task : TaskState} {b : Binding} :
    bindingOf d.handlers machine state task = .ok b ↔ d.Binds task b := by
  rw [bindingOf, Declarations.Binds, bind_eq_ok_iff]
  simp only [mapError_eq_ok_iff, ← Binding.ofHandler?_eq_some_iff, exists_and_left]
  refine exists_congr fun function => and_congr_right fun _ => ?_
  cases Entries.get? d.handlers function with
  | none => simp
  | some handler =>
    cases hsplit : Binding.ofHandler? handler with
    | none => simp [hsplit]
    | some binding => simp [hsplit, pure, Except.pure]

theorem readMachine_eq_ok_iff {name : String} {definition : Json} {machine : Machine} :
    readMachine name definition = .ok machine ↔
      Machine.read definition.resolveReferences = .ok machine ∧ machine.violations = [] := by
  rw [readMachine, bind_eq_ok_iff]
  simp only [mapError_eq_ok_iff]
  constructor
  · rintro ⟨m, hm, hvalid⟩
    split at hvalid
    · next hnone =>
      cases hvalid
      exact ⟨hm, hnone⟩
    · cases hvalid
  · rintro ⟨hm, hvalid⟩
    refine ⟨machine, hm, ?_⟩
    rw [hvalid]
    rfl

/-- All tasks of a machine are bound exactly when each of them is. -/
theorem exists_bindTasks_iff {machine : String} {tasks : List (String × TaskState)}
    (bindings : Bindings) :
    (∃ bindings', bindTasks d.handlers machine bindings tasks = .ok bindings') ↔
      ∀ p ∈ tasks, ∃ b, d.Binds p.2 b := by
  induction tasks generalizing bindings with
  | nil => simp [bindTasks]
  | cons p rest ih =>
    obtain ⟨state, task⟩ := p
    rw [bindTasks, List.forall_mem_cons]
    cases hb : bindingOf d.handlers machine state task with
    | error e =>
      have hnone : ¬ ∃ b, d.Binds task b := by
        rintro ⟨b, hbinds⟩
        rw [bindingOf_eq_ok_iff.mpr hbinds] at hb
        cases hb
      simp [bind, Except.bind, hnone]
    | ok b =>
      have hsome : ∃ b, d.Binds task b := ⟨b, bindingOf_eq_ok_iff.mp hb⟩
      simp only [bind, Except.bind, ih, hsome, true_and]

/-- A definition makes a machine exactly when it is read, valid, and its tasks are bound. -/
theorem makes_iff {name : String} {definition : Json} {machine : Machine} (bindings : Bindings) :
    d.Makes definition machine ↔ readMachine name definition = .ok machine ∧
      ∃ bindings', bindTasks d.handlers name bindings machine.tasks = .ok bindings' := by
  rw [readMachine_eq_ok_iff, exists_bindTasks_iff]
  constructor
  · rintro ⟨hread, hvalid, hbound⟩
    exact ⟨⟨hread, hvalid⟩, fun p hp => hbound p.1 p.2 (Machine.mem_tasks_iff_hasTask.mp hp)⟩
  · rintro ⟨⟨hread, hvalid⟩, hbound⟩
    exact ⟨hread, hvalid, fun state task htask =>
      hbound (state, task) (Machine.mem_tasks_iff_hasTask.mpr htask)⟩

/-- Definitions are read exactly when each of them makes a machine. -/
theorem exists_readMachines_iff {definitions : List (String × Json)} (bindings : Bindings) :
    (∃ r, readMachines d.handlers definitions bindings = .ok r) ↔
      ∀ p ∈ definitions, ∃ machine, d.Makes p.2 machine := by
  induction definitions generalizing bindings with
  | nil => simp [readMachines]
  | cons p rest ih =>
    obtain ⟨name, definition⟩ := p
    rw [List.forall_mem_cons]
    constructor
    · rintro ⟨r, h⟩
      obtain ⟨machine, bindings₁, machines, bindings₂, hread, hbind, hrest, -⟩ :=
        readMachines_cons_eq_ok_iff.mp h
      exact ⟨⟨machine, (makes_iff bindings).mpr ⟨hread, bindings₁, hbind⟩⟩,
        (ih bindings₁).mp ⟨_, hrest⟩⟩
    · rintro ⟨⟨machine, hmakes⟩, hrest⟩
      obtain ⟨hread, bindings₁, hbind⟩ := (makes_iff bindings).mp hmakes
      obtain ⟨⟨machines, bindings₂⟩, hrest⟩ := (ih bindings₁).mpr hrest
      exact ⟨_, readMachines_cons_eq_ok_iff.mpr
        ⟨machine, bindings₁, machines, bindings₂, hread, hbind, hrest, rfl⟩⟩

/-- The machines that are read are those of the definitions, in their order. -/
theorem forall₂_of_readMachines {definitions : List (String × Json)} {bindings : Bindings}
    {r : List (String × Machine) × Bindings}
    (h : readMachines d.handlers definitions bindings = .ok r) :
    List.Forall₂ (fun p q => p.1 = q.1 ∧ d.Makes p.2 q.2) definitions r.1 := by
  induction definitions generalizing bindings r with
  | nil =>
    cases h
    exact .nil
  | cons p rest ih =>
    obtain ⟨name, definition⟩ := p
    obtain ⟨machine, bindings₁, machines, bindings₂, hread, hbind, hrest, rfl⟩ :=
      readMachines_cons_eq_ok_iff.mp h
    exact .cons ⟨rfl, (makes_iff bindings).mpr ⟨hread, bindings₁, hbind⟩⟩ (ih hrest)

/-! ## The number of bindings -/

end Manifest

namespace Bindings

/-- A state that was not bound before adds to the number of bindings. -/
theorem size_insert {bs : Bindings} {machine state : String} (b : Binding)
    (h : bs.lookup? machine state = .none) : (bs.insert machine state b).size = bs.size + 1 := by
  have hstate : state ∉ Entries.keys (bs.ofMachine machine) := by
    rw [Entries.mem_keys_iff, show Entries.get? _ state = .none from h]
    exact Bool.false_ne_true
  have hlength : (Entries.insert (bs.ofMachine machine) state b).length =
      (bs.ofMachine machine).length + 1 := by
    rw [Entries.insert_of_not_mem b hstate, List.length_append]
    rfl
  have hsum := Entries.length_flatMap_insert bs.byMachine machine
    (Entries.insert (bs.ofMachine machine) state b)
  rw [hlength] at hsum
  simp only [size, insert, ofMachine] at hsum ⊢
  omega

end Bindings

namespace Manifest

variable {d : Declarations}

/-- Tasks with names of their own are all counted. -/
theorem size_of_bindTasks {handlers : List (String × String)} {machine : String}
    {tasks : List (String × TaskState)} {bindings bindings' : Bindings}
    (hkeys : (Entries.keys tasks).Nodup)
    (hfresh : ∀ state ∈ Entries.keys tasks, bindings.lookup? machine state = none)
    (h : bindTasks handlers machine bindings tasks = .ok bindings') :
    bindings'.size = bindings.size + tasks.length := by
  induction tasks generalizing bindings with
  | nil =>
    cases h
    rfl
  | cons p rest ih =>
    obtain ⟨state, task⟩ := p
    obtain ⟨hstate, hrest⟩ := List.nodup_cons.mp hkeys
    obtain ⟨hnone, hfresh⟩ := List.forall_mem_cons.mp hfresh
    rw [bindTasks] at h
    cases hb : bindingOf handlers machine state task with
    | error e =>
      rw [hb] at h
      cases h
    | ok b =>
      rw [hb] at h
      -- the tasks that are left have other names, so they are still unbound
      have hfresh' : ∀ state' ∈ Entries.keys rest,
          (bindings.insert machine state b).lookup? machine state' = none := by
        intro state' hmem
        have hne : state ≠ state' := by
          rintro rfl
          exact hstate hmem
        rw [Bindings.lookup?_insert_of_state_ne _ _ _ hne]
        exact hfresh state' hmem
      rw [ih hrest hfresh' h, Bindings.size_insert b hnone, List.length_cons]
      omega

theorem size_of_readMachines {handlers : List (String × String)}
    {definitions : List (String × Json)} {bindings : Bindings}
    {r : List (String × Machine) × Bindings} (hkeys : (Entries.keys definitions).Nodup)
    (hfresh : ∀ name ∈ Entries.keys definitions, ∀ state, bindings.lookup? name state = none)
    (h : readMachines handlers definitions bindings = .ok r) :
    r.2.size = bindings.size + (r.1.map fun p => p.2.tasks.length).sum := by
  induction definitions generalizing bindings r with
  | nil =>
    cases h
    rfl
  | cons p rest ih =>
    obtain ⟨name, definition⟩ := p
    obtain ⟨hname, hrest⟩ := List.nodup_cons.mp hkeys
    obtain ⟨hnone, hfresh⟩ := List.forall_mem_cons.mp hfresh
    obtain ⟨machine, bindings₁, machines, bindings₂, hread, hbind, hr, rfl⟩ :=
      readMachines_cons_eq_ok_iff.mp h
    have htasks := Machine.nodup_tasks (violations_of_readMachine hread)
    have hfresh' : ∀ name' ∈ Entries.keys rest, ∀ state,
        bindings₁.lookup? name' state = none := by
      intro name' hmem state
      have hne : name ≠ name' := by
        rintro rfl
        exact hname hmem
      rw [(bindTasks_lookup? htasks hbind).2.2 name' hne]
      exact hfresh name' hmem state
    rw [ih hrest hfresh' hr, size_of_bindTasks htasks (fun state _ => hnone state) hbind]
    simp only [List.map_cons, List.sum_cons]
    omega

/-! ## Registering in order -/

end Manifest

/-- Valid machines with names of their own are all registered, in order. -/
theorem Simulator.registerAll_eq_ok {machines : List (String × Machine)} {sim : Simulator}
    (hkeys : (Entries.keys (sim.machines ++ machines)).Nodup)
    (hvalid : ∀ p ∈ machines, p.2.violations = []) :
    sim.registerAll machines = .ok ⟨sim.machines ++ machines, sim.engine⟩ := by
  induction machines generalizing sim with
  | nil => rw [registerAll, List.append_nil]
  | cons p rest ih =>
    obtain ⟨name, machine⟩ := p
    obtain ⟨hmachine, hrest⟩ := List.forall_mem_cons.mp hvalid
    have hname : name ∉ Entries.keys sim.machines := by
      rw [Entries.keys, List.map_append, List.nodup_append] at hkeys
      exact fun hmem => hkeys.2.2 name hmem name List.mem_cons_self rfl
    have hregister : sim.register name machine =
        .ok ⟨sim.machines ++ [(name, machine)], sim.engine⟩ := by
      rw [register, hmachine, Entries.insert_of_not_mem machine hname]
    have happend : sim.machines ++ (name, machine) :: rest =
        (sim.machines ++ [(name, machine)]) ++ rest := by simp
    rw [registerAll, hregister, happend]
    exact ih (happend ▸ hkeys) hrest

namespace Manifest

variable {d : Declarations}

/-- What a manifest holds of its declarations. -/
structure Holds (d : Declarations) (m : Manifest) : Prop where
  /-- The machines are those of the definitions, in their order. -/
  machines : List.Forall₂ (fun p q => p.1 = q.1 ∧ d.Makes p.2 q.2) d.definitions m.machines
  /-- Each Task state is bound to what the handler of its function splits into. -/
  bindings : ∀ name machine, (name, machine) ∈ m.machines →
    ∀ state task, machine.HasTask state task →
      ∃ b, d.Binds task b ∧ m.bindings.lookup? name state = some b
  /-- Nothing else is bound. -/
  bound : ∀ name state b, m.bindings.lookup? name state = some b →
    ∃ machine task, (name, machine) ∈ m.machines ∧ machine.HasTask state task ∧ d.Binds task b
  /-- There are as many bindings as Task states. -/
  size : ∃ tasks : List (String × String), tasks.Nodup ∧
    (∀ name state, (name, state) ∈ tasks ↔
      ∃ machine task, (name, machine) ∈ m.machines ∧ machine.HasTask state task) ∧
    m.bindings.size = tasks.length
  /-- A simulator registers all machines in order. -/
  simulator : ∀ services origin,
    m.simulator services origin = .ok ⟨m.machines, Engine.initial services origin⟩

/-- The Task states of machines, each with the name of its machine. -/
def taskNames (machines : List (String × Machine)) : List (String × String) :=
  machines.flatMap fun p => p.2.tasks.map fun t => (p.1, t.1)

theorem mem_taskNames_iff {machines : List (String × Machine)} {name state : String} :
    (name, state) ∈ taskNames machines ↔
      ∃ machine task, (name, machine) ∈ machines ∧ machine.HasTask state task := by
  simp only [taskNames, List.mem_flatMap, List.mem_map, Prod.mk.injEq,
    ← Machine.mem_tasks_iff_hasTask]
  constructor
  · rintro ⟨⟨name, machine⟩, hmachine, ⟨state, task⟩, htask, rfl, rfl⟩
    exact ⟨machine, task, hmachine, htask⟩
  · rintro ⟨machine, task, hmachine, htask⟩
    exact ⟨_, hmachine, _, htask, rfl, rfl⟩

theorem nodup_taskNames {machines : List (String × Machine)}
    (hkeys : (Entries.keys machines).Nodup) (hvalid : ∀ p ∈ machines, p.2.violations = []) :
    (taskNames machines).Nodup := by
  refine List.nodup_flatMap.mpr ⟨fun p hp => ?_, ?_⟩
  · have hpairs : (p.2.tasks.map fun t => (p.1, t.1)) = (Entries.keys p.2.tasks).map (p.1, ·) := by
      rw [Entries.keys, List.map_map]
      rfl
    rw [hpairs]
    exact (Machine.nodup_tasks (hvalid p hp)).map fun _ _ heq => (Prod.mk.inj heq).2
  · refine (List.pairwise_map.mp hkeys).imp fun hne => ?_
    intro pair hleft hright
    obtain ⟨t, -, rfl⟩ := List.mem_map.mp hleft
    obtain ⟨t', -, heq⟩ := List.mem_map.mp hright
    exact hne (Prod.mk.inj heq).1.symm

theorem length_taskNames (machines : List (String × Machine)) :
    (taskNames machines).length = (machines.map fun p => p.2.tasks.length).sum := by
  simp [taskNames, List.length_flatMap]

theorem ofDeclarations_eq_ok_iff {m : Manifest} :
    ofDeclarations d = .ok m ↔ ∃ options machines bindings, readOptions d.custom = .ok options ∧
      readMachines d.handlers d.definitions Bindings.none = .ok (machines, bindings) ∧
      m = ⟨none, machines, bindings, options⟩ := by
  unfold ofDeclarations
  cases ho : readOptions d.custom with
  | error e => simp [bind, Except.bind]
  | ok options =>
    cases hr : readMachines d.handlers d.definitions Bindings.none with
    | error e => simp [bind, Except.bind]
    | ok r =>
      obtain ⟨machines, bindings⟩ := r
      simp [bind, Except.bind, pure, Except.pure, and_assoc]
      exact eq_comm

/-- **A manifest holds the machines of its definitions and the bindings of all their tasks.** -/
theorem holds_of_ofDeclarations {m : Manifest} (hkeys : (Entries.keys d.definitions).Nodup)
    (hm : m.Loaded d.handlers) (h : ofDeclarations d = .ok m) : m.Holds d := by
  obtain ⟨options, machines, bindings, -, hr, rfl⟩ := ofDeclarations_eq_ok_iff.mp h
  refine ⟨forall₂_of_readMachines hr, ?_, ?_, ?_, ?_⟩
  · intro name machine hmachine state task htask
    obtain ⟨b, hof, hlookup⟩ :=
      hm.lookup?_of_task hmachine (Machine.mem_tasks_iff_hasTask.mpr htask)
    exact ⟨b, bindingOf_eq_ok_iff.mp hof, hlookup⟩
  · intro name state b hlookup
    obtain ⟨machine, task, hmachine, htask, hof⟩ := hm.task_of_lookup? hlookup
    exact ⟨machine, task, hmachine, Machine.mem_tasks_iff_hasTask.mp htask,
      bindingOf_eq_ok_iff.mp hof⟩
  · refine ⟨taskNames machines, nodup_taskNames hm.nodup hm.valid,
      fun name state => mem_taskNames_iff, ?_⟩
    have hsize := size_of_readMachines hkeys (fun _ _ _ => rfl) hr
    rw [length_taskNames]
    exact hsize.trans (Nat.zero_add _)
  · intro services origin
    exact Simulator.registerAll_eq_ok hm.nodup hm.valid

/-- **When a text is a manifest, and what the manifest holds.**  A text is a manifest exactly when
it declares one, its options can be read, and each definition makes a machine.  The manifest then
holds these machines in their order and the binding of each of their Task states and no others, and
a simulator registers all of them. -/
theorem holds_of_read (text : String) :
    ((∃ m, Manifest.read text = .ok m) ↔
      ∃ d, Declarations.read? text = some d ∧ (∃ options, readOptions d.custom = .ok options) ∧
        ∀ p ∈ d.definitions, ∃ machine, d.Makes p.2 machine) ∧
    ∀ m, Manifest.read text = .ok m → ∃ d, Declarations.read? text = some d ∧ m.Holds d := by
  constructor
  · unfold Manifest.read
    cases Declarations.read? text with
    | none => simp
    | some d =>
      simp only [ofDeclarations_eq_ok_iff, Option.some.injEq, exists_eq_left']
      rw [← exists_readMachines_iff Bindings.none]
      constructor
      · rintro ⟨m, options, machines, bindings, ho, hr, -⟩
        exact ⟨⟨options, ho⟩, _, hr⟩
      · rintro ⟨⟨options, ho⟩, ⟨machines, bindings⟩, hr⟩
        exact ⟨_, options, machines, bindings, ho, hr, rfl⟩
  · intro m h
    obtain ⟨d, hd, hm⟩ := loaded_of_read h
    refine ⟨d, hd, holds_of_ofDeclarations (Declarations.nodup_definitions hd) hm ?_⟩
    unfold Manifest.read at h
    rw [hd] at h
    exact h

/-- A manifest whose Map state runs a task that waits for its token. -/
def nestedText : String :=
  "\x7b\"functions\":\x7b\"f\":\x7b\"handler\":\"a.b.c\"\x7d\x7d,\"stepFunctions\":\x7b\"stateMachines\":" ++
  "\x7b\"m\":\x7b\"definition\":\x7b\"StartAt\":\"E\",\"States\":\x7b\"E\":\x7b\"Type\":\"Map\",\"End\":true," ++
  "\"Iterator\":\x7b\"StartAt\":\"A\",\"States\":\x7b\"A\":\x7b\"Type\":\"Task\",\"End\":true,\"Resource\":" ++
  "\x7b\"Fn::GetAtt\":\"s-f.Arn\"\x7d\x7d\x7d\x7d\x7d\x7d\x7d\x7d\x7d\x7d\x7d"

/-- The task inside the Map state is bound to its handler, split at the last of two points. -/
theorem holds_of_read_nested :
    ∃ d m, Declarations.read? nestedText = some d ∧ Manifest.read nestedText = .ok m ∧
      m.Holds d ∧ m.bindings.lookup? "m" "A" = some ⟨"a.b", "c"⟩ ∧ m.bindings.size = 1 := by
  have hcheck : (Manifest.read nestedText).toOption.map
      (fun m => (m.bindings.lookup? "m" "A", m.bindings.size)) = some (some ⟨"a.b", "c"⟩, 1) := by
    decide +kernel
  cases h : Manifest.read nestedText with
  | error e =>
    rw [h] at hcheck
    cases hcheck
  | ok m =>
    rw [h] at hcheck
    obtain ⟨hlookup, hsize⟩ := Prod.mk.inj (Option.some.inj hcheck)
    obtain ⟨d, hd, hm⟩ := (holds_of_read nestedText).2 m h
    exact ⟨d, m, hd, rfl, hm, hlookup, hsize⟩

/-- A manifest without machines, whose function has a handler without a point. -/
def unusedText : String := "functions:\n  f:\n    handler: a\n"

/-- Handlers are split only where a task names their function: one that no task names may be such
that it cannot be split. -/
theorem read_unused :
    ¬ ∀ text d, Declarations.read? text = some d →
      (∃ p ∈ d.handlers, ∀ b : Binding, ¬ b.Splits p.2) → ∀ m, Manifest.read text ≠ .ok m := by
  intro hclaim
  have hread : (Manifest.read unusedText).toOption.isSome := by decide +kernel
  have hhandlers : (Declarations.read? unusedText).map (·.handlers) = some [("f", "a")] := by
    decide +kernel
  obtain ⟨d, hd, hhandlers⟩ := Option.map_eq_some_iff.mp hhandlers
  have hsplits : ∀ b : Binding, ¬ b.Splits "a" := by
    intro b hb
    cases Binding.ofHandler?_eq_some_iff.mpr hb
  have hnone := hclaim unusedText d hd ⟨("f", "a"), by simp [hhandlers], hsplits⟩
  cases h : Manifest.read unusedText with
  | error e =>
    rw [h] at hread
    cases hread
  | ok m => exact hnone m h

end Manifest

end StateFlow
