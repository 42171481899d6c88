import StateFlow.Manifest.Basic
import StateFlow.Proofs.Machine.WellFormed
import StateFlow.Proofs.Outcome

/-!
# What loading a manifest records

Loading goes through the machines of a manifest in order and through the tasks of each, and sets the
binding of every task in one table.  No two machines of a manifest have one name, and no two tasks
of a machine, so nothing is set twice: the table holds for a pair of a machine and a state the
binding of the one task that is meant, and nothing else.

## Main results

* `Declarations.nodup_definitions`: no two machines of a manifest have one name
* `Manifest.loaded_of_read`: the table as a function of the machines and the declarations
* `Manifest.Loaded.lookup?_of_task`, `Manifest.Loaded.task_of_lookup?`: the table holds the bindings
  of all tasks, and nothing else
-/

namespace StateFlow

/-! ## Distinct names of machines -/

/-- Whatever a reading of a document gives has a property. -/
def Yaml.Following.Gives {α : Type} (Q : α → Prop) (x : Following α) : Prop :=
  ∀ patience a rest, x.run patience = some (a, rest) → Q a

namespace Yaml.Following.Gives

variable {α β : Type} {P : α → Prop} {Q : β → Prop}

theorem pure {a : α} (h : P a) : Gives P (Pure.pure a : Following α) := by
  intro patience b rest hb
  cases hb
  exact h

theorem bind {x : Following α} {f : α → Following β} (hx : Gives P x)
    (hf : ∀ a, P a → Gives Q (f a)) : Gives Q (x >>= f) := by
  intro patience b rest hb
  rw [StateT.run_bind] at hb
  obtain ⟨⟨a, rest'⟩, ha, hb⟩ := Option.bind_eq_some_iff.mp hb
  exact hf a (hx patience a rest' ha) rest' b rest hb

theorem of_bind {x : Following α} {f : α → Following β} (hf : ∀ a, Gives Q (f a)) :
    Gives Q (x >>= f) :=
  bind (P := fun _ => True) (fun _ _ _ _ => trivial) fun a _ => hf a

theorem optional {fields : List (String × Node)} {name : String} {absent : α}
    {read : Node → Following α} (habsent : P absent) (hread : ∀ node, Gives P (read node)) :
    Gives P (Yaml.optional fields name absent read) := by
  unfold Yaml.optional
  split
  · exact hread _
  · exact pure habsent

theorem table (d : Document) (read : Node → Following α) (node : Node) :
    Gives (fun entries => (Entries.keys entries).Nodup) (d.table read node) :=
  of_bind fun _ => of_bind fun pairs => pure (Entries.nodup_keys_ofPairs pairs)

end Yaml.Following.Gives

/-- No two machines of a manifest have one name. -/
theorem Declarations.nodup_definitions {text : String} {d : Declarations}
    (h : Declarations.read? text = some d) : (Entries.keys d.definitions).Nodup := by
  obtain ⟨document, -, hd⟩ := Option.bind_eq_some_iff.mp h
  obtain ⟨⟨d', rest⟩, hrun, rfl⟩ := Option.map_eq_some_iff.mp hd
  have hgives : Yaml.Following.Gives (fun d => (Entries.keys d.definitions).Nodup)
      (Declarations.ofDocument document) := by
    refine .of_bind fun fields => .of_bind fun handlers => ?_
    have hdefinitions : Yaml.Following.Gives (fun entries => (Entries.keys entries).Nodup)
        (Yaml.optional fields "stepFunctions" [] (readMachines document)) :=
      .optional List.nodup_nil fun node => .of_bind fun fields' =>
        .optional List.nodup_nil (.table document _)
    exact hdefinitions.bind fun definitions h => .of_bind fun custom => .pure h
  exact hgives document.patience d' rest hrun

/-! ## The table of bindings -/

namespace Bindings

variable (bs : Bindings) (machine state : String) (b : Binding)

theorem ofMachine_insert_self :
    (bs.insert machine state b).ofMachine machine =
      Entries.insert (bs.ofMachine machine) state b := by
  simp [insert, ofMachine]

theorem ofMachine_insert_of_ne {machine other : String} (h : machine ≠ other) :
    (bs.insert machine state b).ofMachine other = bs.ofMachine other := by
  simp [insert, ofMachine, Entries.get?_insert_of_ne _ _ h]

theorem lookup?_insert_self : (bs.insert machine state b).lookup? machine state = some b := by
  rw [lookup?, ofMachine_insert_self, Entries.get?_insert_self]

theorem lookup?_insert_of_machine_ne {machine other : String} (h : machine ≠ other)
    (state' : String) :
    (bs.insert machine state b).lookup? other state' = bs.lookup? other state' := by
  rw [lookup?, ofMachine_insert_of_ne _ _ _ h, lookup?]

theorem lookup?_insert_of_state_ne {state state' : String} (h : state ≠ state') :
    (bs.insert machine state b).lookup? machine state' = bs.lookup? machine state' := by
  rw [lookup?, ofMachine_insert_self, Entries.get?_insert_of_ne _ _ h, lookup?]

end Bindings

namespace Manifest

variable {handlers : List (String × String)}

/-- The binding that the declarations give to a state of a machine, if it is one of its tasks. -/
def taskBinding? (handlers : List (String × String)) (machine : String)
    (tasks : List (String × TaskState)) (state : String) : Option Binding :=
  (Entries.get? tasks state).bind fun task => (bindingOf handlers machine state task).toOption

theorem bindTasks_lookup? {machine : String} {tasks : List (String × TaskState)} :
    ∀ {bindings bindings' : Bindings}, (Entries.keys tasks).Nodup →
      bindTasks handlers machine bindings tasks = .ok bindings' →
      (∀ p ∈ tasks, ∃ b, bindingOf handlers machine p.1 p.2 = .ok b) ∧
      (∀ state, bindings'.lookup? machine state =
        (taskBinding? handlers machine tasks state).or (bindings.lookup? machine state)) ∧
      ∀ other, machine ≠ other → ∀ state,
        bindings'.lookup? other state = bindings.lookup? other state := by
  induction tasks with
  | nil =>
    rintro bindings bindings' - h
    cases h
    exact ⟨by simp, fun state => rfl, fun _ _ _ => rfl⟩
  | cons p rest ih =>
    obtain ⟨state, task⟩ := p
    intro bindings bindings' hkeys h
    obtain ⟨hnone, hrest⟩ := Entries.nodup_keys_cons.mp hkeys
    rw [bindTasks] at h
    cases hb : bindingOf handlers machine state task with
    | error e =>
      rw [hb] at h
      cases h
    | ok b =>
      rw [hb] at h
      -- the other tasks have other names, so they do not set this binding again
      obtain ⟨hbound, hself, hother⟩ := ih hrest h
      refine ⟨List.forall_mem_cons.mpr ⟨⟨b, hb⟩, hbound⟩, fun state' => ?_, fun other hne s => ?_⟩
      · rw [hself]
        by_cases heq : state = state'
        · subst heq
          simp [taskBinding?, Entries.get?_cons, hnone, hb, Bindings.lookup?_insert_self,
            Except.toOption]
        · simp [taskBinding?, Entries.get?_cons, heq, Bindings.lookup?_insert_of_state_ne]
      · rw [hother other hne, Bindings.lookup?_insert_of_machine_ne _ _ _ hne]

theorem violations_of_readMachine {name : String} {definition : Json} {machine : Machine}
    (h : readMachine name definition = .ok machine) : machine.violations = [] := by
  have hyields : Yields (fun m : Machine => m.violations = []) (readMachine name definition) := by
    unfold readMachine
    refine .bind fun m _ => ?_
    split
    · next hv => exact .ok hv
    · exact .error _
  exact hyields machine h

/-- Reading definitions goes through them in order. -/
theorem readMachines_cons_eq_ok_iff {name : String} {definition : Json}
    {rest : List (String × Json)} {bindings : Bindings}
    {r : List (String × Machine) × Bindings} :
    readMachines handlers ((name, definition) :: rest) bindings = .ok r ↔
      ∃ machine bindings₁ machines bindings₂, readMachine name definition = .ok machine ∧
        bindTasks handlers name bindings machine.tasks = .ok bindings₁ ∧
        readMachines handlers rest bindings₁ = .ok (machines, bindings₂) ∧
        r = ((name, machine) :: machines, bindings₂) := by
  rw [readMachines]
  cases hm : readMachine name definition with
  | error e => simp [bind, Except.bind]
  | ok machine =>
    cases hb : bindTasks handlers name bindings machine.tasks with
    | error e => simp [hb, bind, Except.bind]
    | ok bindings₁ =>
      cases hr : readMachines handlers rest bindings₁ with
      | error e => simp [hb, hr, bind, Except.bind]
      | ok r' =>
        obtain ⟨machines, bindings₂⟩ := r'
        simp [hb, hr, bind, Except.bind, pure, Except.pure, and_assoc]
        exact eq_comm

/-- The machines that are read are valid, and the table holds the bindings of their tasks beside
those that it held before. -/
theorem readMachines_lookup? {definitions : List (String × Json)} :
    ∀ {bindings bindings' : Bindings} {machines : List (String × Machine)},
      (Entries.keys definitions).Nodup →
      readMachines handlers definitions bindings = .ok (machines, bindings') →
      Entries.keys machines = Entries.keys definitions ∧
      (∀ p ∈ machines, p.2.violations = [] ∧
        ∀ t ∈ p.2.tasks, ∃ b, bindingOf handlers p.1 t.1 t.2 = .ok b) ∧
      ∀ name state, bindings'.lookup? name state =
        ((Entries.get? machines name).bind fun machine =>
          taskBinding? handlers name machine.tasks state).or (bindings.lookup? name state) := by
  induction definitions with
  | nil =>
    rintro bindings bindings' machines - h
    cases h
    exact ⟨rfl, by simp, fun _ _ => rfl⟩
  | cons p rest ih =>
    obtain ⟨name, definition⟩ := p
    intro bindings bindings' machines hkeys h
    obtain ⟨hnone, hrest⟩ := Entries.nodup_keys_cons.mp hkeys
    obtain ⟨machine, bindings₁, machines₁, bindings₂, hm, hb, hr, heq⟩ :=
      readMachines_cons_eq_ok_iff.mp h
    obtain ⟨rfl, rfl⟩ := Prod.mk.inj heq
    have hviolations := violations_of_readMachine hm
    obtain ⟨hbound, hself, hother⟩ := bindTasks_lookup? (Machine.nodup_tasks hviolations) hb
    obtain ⟨hmachines, hvalid, hlookup⟩ := ih hrest hr
    refine ⟨congrArg _ hmachines, List.forall_mem_cons.mpr ⟨⟨hviolations, hbound⟩, hvalid⟩,
      fun name' state => ?_⟩
    rw [hlookup]
    by_cases heq : name = name'
    · subst heq
      have hnone : Entries.get? machines₁ name = none := by
        rw [← Option.not_isSome_iff_eq_none, ← Entries.mem_keys_iff] at hnone ⊢
        rwa [hmachines]
      simp [Entries.get?_cons, hnone, hself]
    · simp [Entries.get?_cons, heq, hother name' heq]

/-- What loading has made of declarations with certain handlers. -/
structure Loaded (handlers : List (String × String)) (m : Manifest) : Prop where
  nodup : (Entries.keys m.machines).Nodup
  valid : ∀ p ∈ m.machines, p.2.violations = []
  bound : ∀ p ∈ m.machines, ∀ t ∈ p.2.tasks, ∃ b, bindingOf handlers p.1 t.1 t.2 = .ok b
  table : ∀ name state, m.bindings.lookup? name state =
    (Entries.get? m.machines name).bind fun machine =>
      taskBinding? handlers name machine.tasks state

/-- **A manifest that is accepted holds valid machines and the binding of each of their tasks**. -/
theorem loaded_of_read {text : String} {m : Manifest} (h : Manifest.read text = .ok m) :
    ∃ d, Declarations.read? text = some d ∧ m.Loaded d.handlers := by
  unfold Manifest.read at h
  split at h
  · cases h
  · next d hd =>
    refine ⟨d, hd, ?_⟩
    unfold ofDeclarations at h
    cases ho : readOptions d.custom with
    | error e =>
      rw [ho] at h
      cases h
    | ok options =>
      cases hr : readMachines d.handlers d.definitions Bindings.none with
      | error e =>
        simp [ho, hr, bind, Except.bind] at h
      | ok r =>
        obtain ⟨machines, bindings⟩ := r
        simp only [ho, hr, bind, Except.bind, pure, Except.pure, Except.ok.injEq] at h
        subst h
        have hnodup := Declarations.nodup_definitions hd
        obtain ⟨hkeys, hmachines, hlookup⟩ := readMachines_lookup? hnodup hr
        refine ⟨hkeys ▸ hnodup, fun p hp => (hmachines p hp).1, fun p hp => (hmachines p hp).2,
          fun name state => (hlookup name state).trans (Option.or_none ..)⟩

namespace Loaded

variable {m : Manifest}

/-- The table holds the binding that the declarations give to a task. -/
theorem lookup?_of_task (hm : m.Loaded handlers) {name state : String} {machine : Machine}
    {task : TaskState} (hmachine : (name, machine) ∈ m.machines)
    (htask : (state, task) ∈ machine.tasks) :
    ∃ b, bindingOf handlers name state task = .ok b ∧ m.bindings.lookup? name state = some b := by
  obtain ⟨b, hb⟩ := hm.bound _ hmachine _ htask
  refine ⟨b, hb, ?_⟩
  have htasks := Machine.nodup_tasks (hm.valid _ hmachine)
  rw [hm.table, Entries.get?_of_mem hm.nodup hmachine, Option.bind_some, taskBinding?,
    Entries.get?_of_mem htasks htask, Option.bind_some, hb]
  rfl

/-- What the table holds was recorded for a task of a machine. -/
theorem task_of_lookup? (hm : m.Loaded handlers) {name state : String} {b : Binding}
    (h : m.bindings.lookup? name state = some b) :
    ∃ machine task, (name, machine) ∈ m.machines ∧ (state, task) ∈ machine.tasks ∧
      bindingOf handlers name state task = .ok b := by
  rw [hm.table] at h
  obtain ⟨machine, hmachine, h⟩ := Option.bind_eq_some_iff.mp h
  obtain ⟨task, htask, h⟩ := Option.bind_eq_some_iff.mp h
  refine ⟨machine, task, Entries.mem_of_get? hmachine, Entries.mem_of_get? htask, ?_⟩
  cases hb : bindingOf handlers name state task with
  | error e =>
    rw [hb] at h
    cases h
  | ok b' =>
    rw [hb] at h
    exact congrArg _ (Option.some.inj h)

end Loaded

end Manifest

end StateFlow
