import Mathlib.Data.List.TakeWhile
import StateFlow.Proofs.Execution.Calls
import StateFlow.Proofs.Manifest.Loading
import StateFlow.Proofs.Simulator.Session

/-!
# Which functions the machines of a manifest call

Loading records the binding of a task under the name that the manifest gives to its machine.  An
execution looks bindings up under the name that it reads off the identifier of its machine, the
last segment between colons.  The two names are the same exactly when the name in the manifest has
no colon (`Identity.machineName_eq_iff`).

Where they are the same, every Task state that an execution enters, at any depth of Map states,
finds the binding of the one task that is meant: the tasks that loading goes through are those that
a walk through the levels can come to.  Where they differ, whatever an execution finds was recorded
for another machine.

## Main results

* `Simulator.exists_runs`: the executions of a simulator of a manifest are those of its machines
* `Manifest.bound_of_runs`: what an execution looks up, fails with and calls
-/

namespace StateFlow

/-! ## Names and identifiers -/

theorem afterLast_append_cons (c : Char) (xs ys : List Char) :
    afterLast c (xs ++ c :: ys) = afterLast c ys := by
  have hreverse : (xs ++ c :: ys).reverse = ys.reverse ++ c :: xs.reverse := by simp
  rw [afterLast, hreverse, List.takeWhile_append]
  split
  · next hall =>
    rw [afterLast, List.takeWhile_cons_of_neg (by simp), List.append_nil]
    have hsegment := List.takeWhile_prefix (l := ys.reverse) (fun x => decide (x ≠ c))
    rw [hsegment.eq_of_length hall]
  · rfl

theorem afterLast_eq_self_iff (c : Char) (cs : List Char) : afterLast c cs = cs ↔ c ∉ cs := by
  constructor
  · intro h hmem
    rw [← h, afterLast, List.mem_reverse] at hmem
    simpa using List.mem_takeWhile_imp hmem
  · intro h
    have hall : ∀ x ∈ cs.reverse, decide (x ≠ c) = true := by
      intro x hx
      exact decide_eq_true fun heq => h (heq ▸ List.mem_reverse.mp hx)
    rw [afterLast, List.takeWhile_eq_self_iff.mpr hall, List.reverse_reverse]

namespace Identity

variable {identity : Identity} {name : String}

/-- What an execution takes for the name of its machine. -/
theorem machineName_of_machineId (h : identity.machineId = StateFlow.machineId name) :
    identity.machineName = String.ofList (afterLast ':' name.toList) := by
  have hsegment : machineIdPrefix.toList =
      "arn:aws:states:local:000000000000:stateMachine".toList ++ [':'] := by decide
  rw [machineName, h, machineOfId, StateFlow.machineId, String.toList_append, hsegment,
    List.append_assoc, List.singleton_append, afterLast_append_cons]

/-- **An execution knows its machine by the name of the manifest exactly when it has no colon.** -/
theorem machineName_eq_iff (h : identity.machineId = StateFlow.machineId name) :
    identity.machineName = name ↔ ':' ∉ name.toList := by
  rw [machineName_of_machineId h, ← afterLast_eq_self_iff, ← String.toList_inj,
    String.toList_ofList]

end Identity

/-! ## Executions of the machines of a manifest -/

/-- An execution of a machine of a manifest, under the name that it has there. -/
structure Manifest.Runs (m : Manifest) (name : String) (e : Execution) : Prop where
  machine : (name, e.machine) ∈ m.machines
  machineId : e.identity.machineId = machineId name

namespace Simulator

variable {sim sim' : Simulator} {machines : List (String × Machine)}

theorem registerAll_cons {name : String} {machine : Machine}
    (h : sim.registerAll ((name, machine) :: machines) = .ok sim') :
    ∃ sim₁, sim.register name machine = .ok sim₁ ∧ sim₁.registerAll machines = .ok sim' ∧
      sim₁ = { sim with machines := Entries.insert sim.machines name machine } := by
  rw [registerAll] at h
  cases hregister : sim.register name machine with
  | error fault =>
    rw [hregister] at h
    cases h
  | ok sim₁ =>
    rw [hregister] at h
    refine ⟨sim₁, rfl, h, ?_⟩
    unfold register at hregister
    split at hregister <;> cases hregister
    rfl

/-- Machines that are registered in order are registered by requests. -/
theorem after?_registerAll (h : sim.registerAll machines = .ok sim') :
    sim.after? (machines.map fun p => .register p.1 p.2) = some sim' := by
  induction machines generalizing sim with
  | nil =>
    cases h
    rfl
  | cons p rest ih =>
    obtain ⟨sim₁, hregister, hrest, -⟩ := registerAll_cons h
    simp only [List.map_cons, after?, serve?, hregister]
    exact ih hrest

theorem engine_registerAll (h : sim.registerAll machines = .ok sim') :
    sim'.engine = sim.engine := by
  induction machines generalizing sim with
  | nil =>
    cases h
    rfl
  | cons p rest ih =>
    obtain ⟨sim₁, -, hrest, heq⟩ := registerAll_cons h
    rw [ih hrest, heq]

theorem machine?_registerAll (h : sim.registerAll machines = .ok sim') {name : String}
    {machine : Machine} (hm : sim'.machine? name = some machine) :
    (name, machine) ∈ machines ∨ sim.machine? name = some machine := by
  induction machines generalizing sim with
  | nil =>
    cases h
    exact .inr hm
  | cons p rest ih =>
    obtain ⟨name', machine'⟩ := p
    obtain ⟨sim₁, -, hrest, rfl⟩ := registerAll_cons h
    rcases ih hrest with hmem | hm
    · exact .inl (List.mem_cons_of_mem _ hmem)
    · by_cases hname : name' = name
      · subst hname
        rw [machine?, Entries.get?_insert_self] at hm
        exact .inl (Option.some.inj hm ▸ List.mem_cons_self)
      · rw [machine?, Entries.get?_insert_of_ne _ _ hname] at hm
        exact .inr hm

/-- **The executions of a simulator of a manifest are those of its machines**, as long as no further
machines are registered. -/
theorem exists_runs {m : Manifest} {services : Services} {origin : Timestamp}
    {rs : List Request} (hbuilt : m.simulator services origin = .ok sim)
    (hrs : ∀ name machine, Request.register name machine ∉ rs) (h : sim.after? rs = some sim') :
    ∀ (place : Nat) (e : Execution), sim'.engine.executions[place]? = some e →
      ∃ name, m.Runs name e := by
  have hmachines : ∀ name machine, sim.machine? name = some machine →
      (name, machine) ∈ m.machines := by
    intro name machine hm
    rcases machine?_registerAll hbuilt hm with hmem | hm
    · exact hmem
    · cases hm
  have hempty : sim.engine.executions = [] := congrArg _ (engine_registerAll hbuilt)
  refine (session_induction (P := fun rs s =>
    (∀ name machine, Request.register name machine ∉ rs) → s.machines = sim.machines ∧
      ∀ (place : Nat) (e : Execution), s.engine.executions[place]? = some e →
        ∃ name, m.Runs name e) ?_ ?_ rs h hrs).2
  · exact fun _ => ⟨rfl, by simp [hempty]⟩
  -- no request registers a machine, so all are those that were there first
  · intro rs s r s' _ ih hr hrs
    obtain ⟨hs, hruns⟩ := ih fun name machine hmem => hrs name machine (List.mem_append_left _ hmem)
    refine ⟨?_, fun place e he => ?_⟩
    · rcases serve?_cases hr with ⟨rfl, -⟩ | ⟨name, machine, rfl, -⟩ | ⟨_, _, _, _, _, rfl⟩ |
        ⟨_, _, _, _, rfl⟩
      · exact hs
      · exact absurd (List.mem_append_right _ List.mem_cons_self) (hrs name machine)
      · exact hs
      · exact hs
    · rcases serve?_execution hr he with ⟨e₀, he₀, hchange⟩ | ⟨name, machine, _, _, hm, -, rfl⟩
      · obtain ⟨name, hmachine, hid⟩ := hruns place e₀ he₀
        obtain ⟨hmachine', hid'⟩ := hchange.fixed
        exact ⟨name, hmachine' ▸ hmachine, hid' ▸ hid⟩
      · rw [machine?, hs] at hm
        exact ⟨name, hmachines name machine hm, rfl⟩

end Simulator

/-! ## What an execution looks up -/

/-- A sound execution enters tasks of its machine only. -/
theorem Execution.Sound.task_mem {R : Machine → Fault → Prop} {e : Execution} (h : e.Sound R)
    {state : String} {task : TaskState} (henters : e.Enters state task) :
    (state, task) ∈ e.machine.tasks := by
  obtain ⟨root, address, leaf, input, hroot, hat, -, hs⟩ := henters
  unfold Execution.frame? at hroot
  split at hroot
  · next run deadline? hphase =>
    cases hroot
    simp only [Execution.Sound, hphase] at h
    exact (h.of_at? hat).here.level.task_mem hs
  · cases hroot

/-- The faults of executions that find all their functions. -/
def Fault.Bound (fault : Fault) : Prop :=
  ∀ machine state, fault.innermost ≠ .unboundTask machine state

theorem Fault.bound_of_ofPayload {fault : Fault} (h : fault.OfPayload) : fault.Bound := by
  cases fault with
  | pathNotFound _ | unsupportedPath _ _ | missingField _ | unsupportedField _ => exact nofun
  | _ => exact h.elim

theorem Fault.blame_bound : Blame fun _ => Fault.Bound where
  payload _ _ := Fault.bound_of_ofPayload
  cancelled _ := nofun
  timedOut _ _ := nofun
  aborted _ _ := nofun

namespace Manifest

variable {handlers : List (String × String)} {m : Manifest} {services : Services}
  {origin : Timestamp} {rs : List Simulator.Request} {sim : Simulator} {e : Execution}
  {name : String}

/-- The name by which an execution knows its machine is that of the manifest. -/
theorem Runs.lookup?_eq (hruns : m.Runs name e) (hname : ':' ∉ name.toList)
    (hbindings : services.bindings = m.bindings) (state : String) :
    services.bindings.lookup? e.identity.machineName state = m.bindings.lookup? name state := by
  rw [hbindings, (Identity.machineName_eq_iff hruns.machineId).mpr hname]

/-- An execution whose machine has no colon in its name stays sound, and no task is unbound. -/
theorem sound_session (hm : m.Loaded handlers) (hbindings : services.bindings = m.bindings)
    (h : (Simulator.initial services origin).after? rs = some sim) :
    ∀ (place : Nat) (e : Execution), sim.engine.executions[place]? = some e →
      ∀ name, m.Runs name e → ':' ∉ name.toList → e.Sound fun _ => Fault.Bound := by
  refine Simulator.session_induction (P := fun _ sim => ∀ (place : Nat) (e : Execution),
    sim.engine.executions[place]? = some e → ∀ name, m.Runs name e → ':' ∉ name.toList →
      e.Sound fun _ => Fault.Bound) (by simp [Simulator.initial, Engine.initial]) ?_ rs h
  intro rs s r s' hs ih hr place e' he' name hruns hname
  rcases Simulator.serve?_execution hr he' with ⟨e, he, hchange⟩ | ⟨_, _, _, _, _, _, rfl⟩
  · obtain ⟨hmachine, hid⟩ := hchange.fixed
    have hruns : m.Runs name e := ⟨hmachine ▸ hruns.machine, hid ▸ hruns.machineId⟩
    refine (ih place e he name hruns hname).change Fault.blame_bound hchange ?_
    intro _ address root leaf _ hroot hat hleaf fault hraise machine state heq
    rw [(Simulator.accepts_session hs).services] at hraise
    have hfault : fault = .unboundTask machine state := by
      cases fault with
      | itemFailed _ _ _ => exact absurd rfl (hraise.ne_itemFailed _ _ _)
      | _ => exact heq
    subst hfault
    obtain ⟨rfl, hnone, input, task, -, htask⟩ := hraise.of_unboundTask
    obtain ⟨b, -, hb⟩ := hm.lookup?_of_task hruns.machine (hleaf.level.task_mem htask)
    rw [← hruns.lookup?_eq hname hbindings] at hb
    rw [hb] at hnone
    cases hnone
  · trivial

/-- **An execution of a machine of a manifest finds its functions exactly when the name of the
machine has no colon.**  Without one, each Task state that it enters finds the binding of that very
task, no task is unbound, and what the execution calls is bound to a Task state that it enters.
With one, whatever the execution finds was recorded for another machine. -/
theorem bound_of_runs {text : String} {d : Declarations} {origin : Timestamp} {built : Simulator}
    {place : Nat} (hd : Declarations.read? text = some d) (hread : Manifest.read text = .ok m)
    (hbindings : services.bindings = m.bindings)
    (hbuilt : m.simulator services origin = .ok built) (h : built.after? rs = some sim)
    (he : sim.engine.executions[place]? = some e) :
    ((∀ name machine, Simulator.Request.register name machine ∉ rs) → ∃ name, m.Runs name e) ∧
    ∀ name, m.Runs name e →
      (e.identity.machineName = name ↔ ':' ∉ name.toList) ∧
      (':' ∉ name.toList →
        (∀ state task, e.Enters state task →
          ∃ b, bindingOf d.handlers name state task = .ok b ∧
            m.bindings.lookup? name state = some b ∧
            services.bindings.lookup? e.identity.machineName state = some b) ∧
        (∀ fault, e.result? = some (.error fault) → fault.Bound) ∧
        ∀ move address sim', sim.serve? (.move (.leaf place move address)) = some sim' →
          sim'.engine.world.calls = sim.engine.world.calls ∨
          ∃ state task call, e.Enters state task ∧
            m.bindings.lookup? name state = some call.binding ∧
            sim'.engine.world.calls = sim.engine.world.calls ++ [call]) ∧
      (':' ∈ name.toList →
        ∀ state b, services.bindings.lookup? e.identity.machineName state = some b →
          ∃ other machine task, other ≠ name ∧ (other, machine) ∈ m.machines ∧
            (state, task) ∈ machine.tasks ∧ bindingOf d.handlers other state task = .ok b) := by
  obtain ⟨d', hd', hm⟩ := loaded_of_read hread
  obtain rfl : d = d' := Option.some.inj (hd.symm.trans hd')
  have hsession : (Simulator.initial services origin).after?
      ((m.machines.map fun p => .register p.1 p.2) ++ rs) = some sim := by
    rw [Simulator.after?_append, Simulator.after?_registerAll hbuilt]
    exact h
  refine ⟨fun hrs => Simulator.exists_runs hbuilt hrs h place e he, fun name hruns => ?_⟩
  refine ⟨Identity.machineName_eq_iff hruns.machineId, fun hname => ?_, fun hname state b hb => ?_⟩
  · have hsound := sound_session hm hbindings hsession place e he name hruns hname
    refine ⟨fun state task henters => ?_, fun fault hresult => ?_,
      fun move address sim' hmove => ?_⟩
    · obtain ⟨b, hof, hb⟩ := hm.lookup?_of_task hruns.machine (hsound.task_mem henters)
      exact ⟨b, hof, hb, (hruns.lookup?_eq hname hbindings state).trans hb⟩
    · intro machine state
      exact Fault.Within.of_innermost (C := fun f => f ≠ .unboundTask machine state)
        ((hsound.within hresult).mono fun _ f hf => hf machine state)
    · obtain ⟨engine, hengine, rfl⟩ := Option.map_eq_some_iff.mp hmove
      have hservices := (Simulator.accepts_session hsession).services
      rcases Engine.move_leaf_calls hengine he with
        hcalls | ⟨state, task, call, henters, hb, hcalls⟩
      · exact .inl hcalls
      · rw [hservices, hruns.lookup?_eq hname hbindings] at hb
        exact .inr ⟨state, task, call, henters, hb, hcalls⟩
  -- with a colon, the machine of what was found goes by the name that was read off
  · obtain ⟨machine, task, hmachine, htask, hof⟩ := hm.task_of_lookup? (hbindings ▸ hb)
    refine ⟨_, machine, task, fun heq => ?_, hmachine, htask, hof⟩
    exact absurd hname ((Identity.machineName_eq_iff hruns.machineId).mp heq)

/-! ### A machine with one task, under two names -/

/-- A manifest with one machine, whose only state calls a function. -/
def textWith (name : String) : String :=
  "functions:\n  f:\n    handler: a.b\nstepFunctions:\n  stateMachines:\n    \"" ++ name ++
    "\":\n      definition:\n        StartAt: A\n        States:\n          A:\n" ++
    "            Type: Task\n            Resource: f\n            End: true\n"

/-- Services without implementations, with the bindings of a manifest. -/
def servicesOf (m : Manifest) : Services := .standard m.bindings fun _ => none

/-- What becomes of a session with the simulator of a manifest. -/
def afterText (text : String) (rs : List Simulator.Request) : Option Simulator :=
  (Manifest.read text).toOption.bind fun m =>
    (m.simulator (servicesOf m) default).toOption.bind (·.after? rs)

theorem of_afterText {text : String} {rs : List Simulator.Request} {sim : Simulator}
    (h : afterText text rs = some sim) : ∃ m built, Manifest.read text = .ok m ∧
      m.simulator (servicesOf m) default = .ok built ∧ built.after? rs = some sim := by
  obtain ⟨m, hm, h⟩ := Option.bind_eq_some_iff.mp h
  obtain ⟨built, hbuilt, h⟩ := Option.bind_eq_some_iff.mp h
  refine ⟨m, built, ?_, ?_, h⟩
  · cases hread : Manifest.read text <;> simp_all [Except.toOption]
  · cases hsimulator : m.simulator (servicesOf m) default <;> simp_all [Except.toOption]

/-- The machine named `m` is known by that name, and each task that it enters finds its function. -/
theorem bound_of_runs_plain :
    ∃ d m sim e, Declarations.read? (textWith "m") = some d ∧
      Manifest.read (textWith "m") = .ok m ∧
      afterText (textWith "m") [.start "m" .null, .move (.start 0)] = some sim ∧
      sim.engine.executions[0]? = some e ∧ m.Runs "m" e ∧ e.identity.machineName = "m" ∧
      ∀ state task, e.Enters state task →
        ∃ b, bindingOf d.handlers "m" state task = .ok b ∧
          m.bindings.lookup? "m" state = some b ∧
          (servicesOf m).bindings.lookup? e.identity.machineName state = some b := by
  have hcheck : ((afterText (textWith "m") [.start "m" .null, .move (.start 0)]).bind
      (·.engine.executions[0]?)).map (·.identity.machineId) = some (machineId "m") := by
    decide +kernel
  obtain ⟨e, he, hid⟩ := Option.map_eq_some_iff.mp hcheck
  obtain ⟨sim, hsim, he⟩ := Option.bind_eq_some_iff.mp he
  obtain ⟨m, built, hread, hbuilt, h⟩ := of_afterText hsim
  obtain ⟨d, hd, -⟩ := loaded_of_read hread
  obtain ⟨hruns, hbound⟩ := bound_of_runs hd hread rfl hbuilt h he
  obtain ⟨name, hruns⟩ := hruns (by simp)
  obtain rfl : name = "m" := by
    have heq : machineIdPrefix ++ name = machineIdPrefix ++ "m" := hruns.machineId.symm.trans hid
    exact (String.append_right_inj machineIdPrefix).mp heq
  obtain ⟨hname, hfinds, -⟩ := hbound "m" hruns
  have hcolon : ':' ∉ "m".toList := by decide
  exact ⟨d, m, sim, e, hd, hread, hsim, he, hruns, hname.mpr hcolon, (hfinds hcolon).1⟩

/-- The task of a machine named `x:y` is looked up under `y`, and is not found. -/
theorem unboundTask_of_colon :
    ∃ sim, afterText (textWith "x:y")
        [.start "x:y" .null, .move (.start 0), .move (.leaf 0 .step [])] = some sim ∧
      sim.engine.result? 0 = some (.error (.unboundTask "y" "A")) := by
  have hfault : (afterText (textWith "x:y")
      [.start "x:y" .null, .move (.start 0), .move (.leaf 0 .step [])]).bind (·.engine.fault? 0) =
      some (.unboundTask "y" "A") := by decide +kernel
  obtain ⟨sim, hsim, hfault⟩ := Option.bind_eq_some_iff.mp hfault
  exact ⟨sim, hsim, Engine.fault?_eq_some_iff.mp hfault⟩

end Manifest

end StateFlow
