import StateFlow.Execution.Engine
import StateFlow.Proofs.Execution.Walk

/-!
# How executions change

A move of an engine leaves the executions at their places and changes one of them at most, in one of
a few ways: it starts, a leaf of it moves or panics, its deadline passes, or it is told of its
cancellation (`Execution.Change`).  Its identity and its machine stay what they are, and an
execution whose frames keep to its machine is sound after the change too.

## Main definitions

* `Execution.Change`: the ways in which an execution changes
* `Engine.Moves`: the moves of an engine
* `Engine.Evolves`: the executions of an engine each changed in one of the ways
* `Execution.Sound R`: an execution whose frames keep to its machine
* `Execution.Panics`: a function of an execution panics in its next step

## Main results

* `Engine.moves_of_move`: every move of an engine is one of these
* `Engine.evolves_of_move`: a move changes the executions in place
* `Execution.Sound.change`: an execution stays sound
-/

namespace StateFlow

/-- The ways in which an execution changes, by a move of one of its leaves or otherwise.  Its
identity and its machine never do. -/
inductive Execution.Change (services : Services) (w : World) (e : Execution) :
    (leaf? : Option (Run.LeafMove × List Nat)) → Execution → Prop
  | same : Change services w e none e
  | started {e' : Execution} (h : e.start? w = some e') : Change services w e none e'
  | moved {e' : Execution} {w' : World} {move : Run.LeafMove} {address : List Nat}
      (h : e.moveAt? services w move address = some (w', e')) :
      Change services w e (some (move, address)) e'
  | aborted {e' : Execution} {w' : World} {address : List Nat}
      (h : e.abort? w address = some (w', e')) : Change services w e none e'
  | expired {e' : Execution} {w' : World} (h : e.expire? w = some (w', e')) :
      Change services w e none e'
  | cancelled : Change services w e none { e with cancelled := true }

namespace Execution

variable {e e' : Execution} {services : Services} {w w' : World} {R : Machine → Fault → Prop}
  {leaf? : Option (Run.LeafMove × List Nat)}

/-- The frame of a running execution. -/
def frame? (e : Execution) : Option Frame :=
  match e.phase with
  | .running run _ => some ⟨e.machine, none, run⟩
  | _ => none

/-- An execution whose frames keep to its machine, and whose fault was raised in it. -/
def Sound (R : Machine → Fault → Prop) (e : Execution) : Prop :=
  match e.phase with
  | .created | .finished (.ok _) => True
  | .running run _ => Frame.Everywhere (Frame.Sound e.machine R) ⟨e.machine, none, run⟩
  | .finished (.error fault) => Fault.Within R e.machine fault

theorem result?_eq_some_iff {result : Except Fault Json} :
    e.result? = some result ↔ e.phase = .finished result := by
  unfold result?
  cases e.phase with
  | created => simp
  | running run deadline? => simp
  | finished result' => simp

/-- An execution that has succeeded has an output. -/
theorem exists_output (h : (e.result?.bind (·.toOption)).isSome) :
    ∃ output, e.result? = some (.ok output) := by
  obtain ⟨output, houtput⟩ := Option.isSome_iff_exists.mp h
  obtain ⟨result, hresult, houtput⟩ := Option.bind_eq_some_iff.mp houtput
  cases result with
  | ok output' => exact ⟨output', hresult⟩
  | error fault => cases houtput

/-- What a sound execution has failed with was raised in it. -/
theorem Sound.within {fault : Fault} (h : e.Sound R) (hresult : e.result? = some (.error fault)) :
    Fault.Within R e.machine fault := by
  simpa only [Sound, result?_eq_some_iff.mp hresult] using h

theorem frame?_eq_some {root : Frame} (h : e.frame? = some root) :
    ∃ run deadline?, e.phase = .running run deadline? ∧ root = ⟨e.machine, none, run⟩ := by
  unfold frame? at h
  split at h
  · next run deadline? hphase =>
    cases h
    exact ⟨run, deadline?, hphase, rfl⟩
  · cases h

/-- The frames of a sound execution keep to its machine. -/
theorem Sound.root (h : e.Sound R) {root : Frame} (hroot : e.frame? = some root) :
    root.Everywhere (Frame.Sound e.machine R) := by
  obtain ⟨run, deadline?, hphase, rfl⟩ := frame?_eq_some hroot
  simpa only [Sound, hphase] using h

theorem start?_eq_some (h : e.start? w = some e') :
    e.phase = .created ∧ ∃ started, e' = { e with
      events := e.events ++ [started]
      phase := .running (.start e.machine e.identity.input)
        (e.machine.timeout?.map w.deadlineAfter) } := by
  unfold start? at h
  split at h
  · next hphase =>
    cases h
    exact ⟨hphase, _, rfl⟩
  · cases h

/-- The first step tells of the start. -/
theorem start?_events (h : e.start? w = some e') :
    e'.events = e.events ++
      [.executionStarted e.identity.executionId e.identity.machineName e.identity.input] := by
  unfold start? at h
  split at h
  · cases h
    rfl
  · cases h

theorem moveAt?_eq_some {move : Run.LeafMove} {address : List Nat}
    (h : e.moveAt? services w move address = some (w', e')) :
    ∃ run deadline? s run', e.phase = .running run deadline? ∧
      Run.moveAt ⟨services, e.identity⟩ move e.machine none (e.situation w) address run =
        some (s, run') ∧
      w' = s.world ∧ e' = (e.inSituation s).withRun deadline? run' := by
  unfold moveAt? at h
  split at h
  · next run deadline? hphase =>
    simp only [Option.bind_eq_bind, Option.bind_eq_some_iff, Option.pure_def, Option.some.injEq,
      Prod.exists, Prod.mk.injEq] at h
    obtain ⟨s, run', hmove, rfl, rfl⟩ := h
    exact ⟨run, deadline?, s, run', hphase, hmove, rfl, rfl⟩
  · cases h

theorem abort?_eq_some {address : List Nat} (h : e.abort? w address = some (w', e')) :
    ∃ run deadline? report, e.phase = .running run deadline? ∧
      run.panicAt? address = some report ∧
      w' = { w with tokens := w.tokens.releaseAll run.tokens } ∧
      e' = { e with phase := .finished (.error (.executionAborted report)) } := by
  unfold abort? at h
  split at h
  · next run deadline? hphase =>
    obtain ⟨report, hpanic, heq⟩ := Option.map_eq_some_iff.mp h
    cases heq
    exact ⟨run, deadline?, report, hphase, hpanic, rfl, rfl⟩
  · cases h

/-- A function of an execution panics in its next step, at whatever leaf. -/
def Panics (e : Execution) (report : String) : Prop := ∃ address, e.panicAt? address = some report

/-- An execution is aborted only where a function of it panics; the report is its result. -/
theorem panics_of_abort? {address : List Nat} (h : e.abort? w address = some (w', e')) :
    ∃ report, e.Panics report ∧ e'.result? = some (.error (.executionAborted report)) := by
  obtain ⟨run, deadline?, report, hphase, hpanic, -, rfl⟩ := abort?_eq_some h
  exact ⟨report, ⟨address, by simpa only [panicAt?, hphase] using hpanic⟩, rfl⟩

theorem expire?_eq_some (h : e.expire? w = some (w', e')) :
    ∃ run deadline, e.phase = .running run (some deadline) ∧ deadline ≤ w.clock ∧
      e' = e.finish (.error (.executionTimedOut (e.machine.timeout?.getD 0))) := by
  unfold expire? at h
  split at h
  · next run deadline hphase =>
    split at h
    · next hdue =>
      cases h
      exact ⟨run, deadline, hphase, hdue.1, rfl⟩
    · cases h
  · cases h

/-- A time-out releases the tokens that the run waits on. -/
theorem expire?_world (h : e.expire? w = some (w', e')) :
    ∃ run deadline?, e.phase = .running run deadline? ∧
      w' = { w with tokens := w.tokens.releaseAll run.tokens } := by
  unfold expire? at h
  split at h
  · next run deadline hphase =>
    split at h
    · cases h
      exact ⟨run, some deadline, hphase, rfl⟩
    · cases h
  · cases h

theorem withRun_cases (e : Execution) (deadline? : Option Nat) (run : Run) :
    (∃ result, run = .ended result ∧ e.withRun deadline? run = e.finish result) ∨
      run.result? = none ∧
        e.withRun deadline? run = { e with phase := .running run deadline? } := by
  cases run with
  | ended result => exact .inl ⟨result, rfl, rfl⟩
  | entering name payload => exact .inr ⟨rfl, rfl⟩
  | working name input work => exact .inr ⟨rfl, rfl⟩
  | leaving name departure => exact .inr ⟨rfl, rfl⟩

theorem Change.fixed (h : e.Change services w leaf? e') :
    e'.machine = e.machine ∧ e'.identity = e.identity := by
  cases h with
  | same => exact ⟨rfl, rfl⟩
  | started h =>
    obtain ⟨-, started, rfl⟩ := start?_eq_some h
    exact ⟨rfl, rfl⟩
  | moved h =>
    obtain ⟨run, deadline?, s, run', -, -, -, rfl⟩ := moveAt?_eq_some h
    rcases withRun_cases (e.inSituation s) deadline? run' with ⟨result, -, heq⟩ | ⟨-, heq⟩ <;>
      rw [heq] <;> exact ⟨rfl, rfl⟩
  | aborted h =>
    obtain ⟨run, deadline?, report, -, -, -, rfl⟩ := abort?_eq_some h
    exact ⟨rfl, rfl⟩
  | expired h =>
    obtain ⟨run, deadline, -, -, rfl⟩ := expire?_eq_some h
    exact ⟨rfl, rfl⟩
  | cancelled => exact ⟨rfl, rfl⟩

/-- **An execution stays sound** when the leaf that moves raises what is allowed. -/
theorem Sound.change (hR : Blame R) (he : e.Sound R) (h : e.Change services w leaf? e')
    (hraise : ∀ move address root leaf, leaf? = some (move, address) → e.frame? = some root →
      root.at? address = some leaf → leaf.Sound e.machine R → ∀ fault,
      Raises ⟨services, e.identity⟩ leaf.machine (e.situation w) leaf.run fault →
      R leaf.machine fault) : e'.Sound R := by
  cases h with
  | same => exact he
  | started h =>
    obtain ⟨-, started, rfl⟩ := start?_eq_some h
    exact Frame.everywhere_sound_start .self _
  | moved h =>
    obtain ⟨run, deadline?, s, run', hphase, hmove, -, rfl⟩ := moveAt?_eq_some h
    have hrun : Frame.Everywhere (Frame.Sound e.machine R) ⟨e.machine, none, run⟩ := by
      simpa only [Sound, hphase] using he
    -- the frames stay sound, and the fault of a run that has ended is among what they say
    have hrun' : Frame.Everywhere (Frame.Sound e.machine R) ⟨e.machine, none, run'⟩ :=
      Frame.everywhere_sound_moveAt hR hrun hmove fun leaf hat =>
        hraise _ _ _ leaf rfl (by simp [frame?, hphase]) hat
    rcases withRun_cases (e.inSituation s) deadline? run' with ⟨result, rfl, heq⟩ | ⟨-, heq⟩
    · rw [heq]
      cases result with
      | ok output => trivial
      | error fault => exact hrun'.here.run
    · rw [heq]
      exact hrun'
  | aborted h =>
    obtain ⟨run, deadline?, report, -, -, -, rfl⟩ := abort?_eq_some h
    exact .raised (hR.aborted e.machine report)
  | expired h =>
    obtain ⟨run, deadline, -, -, rfl⟩ := expire?_eq_some h
    exact .raised (hR.timedOut e.machine _)
  | cancelled => exact he

/-- The frames of an execution keep to its machine, whatever is raised. -/
theorem Change.sound (h : e.Change services w leaf? e') (he : e.Sound fun _ _ => True) :
    e'.Sound fun _ _ => True := by
  have hblame : Blame fun _ _ => True :=
    ⟨fun _ _ _ => trivial, fun _ => trivial, fun _ _ => trivial, fun _ _ => trivial⟩
  exact he.change hblame h fun _ _ _ _ _ _ _ _ _ _ => trivial

end Execution

/-! ## Moves of an engine -/

/-- The fault of an execution that has failed. -/
def Engine.fault? (engine : Engine) (execution : Nat) : Option Fault :=
  (engine.result? execution).bind fun
    | .ok _ => none
    | .error fault => some fault

theorem Engine.fault?_eq_some_iff {engine : Engine} {execution : Nat} {fault : Fault} :
    engine.fault? execution = some fault ↔ engine.result? execution = some (.error fault) := by
  unfold fault?
  rcases engine.result? execution with - | output | fault' <;> simp

/-- What a move of an engine does at a leaf of the execution at a place. -/
def Move.leafAt? (place : Nat) : Move → Option (Run.LeafMove × List Nat)
  | .leaf execution move address => if execution = place then some (move, address) else none
  | _ => none

theorem Move.leafAt?_eq_some_iff {place : Nat} {move : Move} {leaf : Run.LeafMove × List Nat} :
    move.leafAt? place = some leaf ↔ move = .leaf place leaf.1 leaf.2 := by
  cases move with
  | leaf execution move address =>
    rw [leafAt?]
    constructor
    · intro h
      split at h
      · next heq =>
        cases h
        rw [heq]
      · cases h
    · intro h
      cases h
      rw [if_pos rfl]
  | _ => exact ⟨nofun, nofun⟩

/-- The executions of an engine stay in place, and each changes in one of the ways; a leaf of it
moves only where the move says so. -/
structure Engine.Evolves (engine : Engine) (move : Move) (engine' : Engine) : Prop where
  services : engine'.services = engine.services
  length : engine'.executions.length = engine.executions.length
  change : ∀ (place : Nat) (e' : Execution), engine'.executions[place]? = some e' →
    ∃ e, engine.executions[place]? = some e ∧
      e.Change engine.services engine.world (move.leafAt? place) e'

namespace Engine

variable {engine engine' : Engine} {move : Move}

theorem update?_eq_some {execution : Nat} {f : Execution → Option (World × Execution)}
    (h : engine.update? execution f = some engine') :
    ∃ e w e', engine.executions[execution]? = some e ∧ f e = some (w, e') ∧
      engine' = ⟨engine.services, w, engine.executions.set execution e'⟩ := by
  simp only [update?, Option.bind_eq_bind, Option.bind_eq_some_iff, Option.pure_def,
    Option.some.injEq, Prod.exists] at h
  obtain ⟨e, he, w, e', hfe, rfl⟩ := h
  exact ⟨e, w, e', he, hfe, rfl⟩

/-! ## Moves of an engine -/

/-- The moves of an engine: what an execution does or what is done to it, and what happens in the
world. -/
inductive Moves (engine : Engine) : Move → Engine → Prop
  | start {place : Nat} {e e' : Execution} (he : engine.executions[place]? = some e)
      (h : e.start? engine.world = some e') :
      Moves engine (.start place)
        ⟨engine.services, engine.world, engine.executions.set place e'⟩
  | leaf {place : Nat} {move : Run.LeafMove} {address : List Nat} {e e' : Execution} {w : World}
      (he : engine.executions[place]? = some e)
      (h : e.moveAt? engine.services engine.world move address = some (w, e')) :
      Moves engine (.leaf place move address)
        ⟨engine.services, w, engine.executions.set place e'⟩
  | abort {place : Nat} {address : List Nat} {e e' : Execution} {w : World}
      (he : engine.executions[place]? = some e)
      (h : e.abort? engine.world address = some (w, e')) :
      Moves engine (.abort place address) ⟨engine.services, w, engine.executions.set place e'⟩
  | expire {place : Nat} {e e' : Execution} {w : World} (he : engine.executions[place]? = some e)
      (h : e.expire? engine.world = some (w, e')) :
      Moves engine (.expire place) ⟨engine.services, w, engine.executions.set place e'⟩
  | cancel {place : Nat} {e : Execution} (he : engine.executions[place]? = some e) :
      Moves engine (.cancel place)
        ⟨engine.services, engine.world, engine.executions.set place { e with cancelled := true }⟩
  | report {n : Nat} {job : Job} (hjob : engine.world.jobs[n]? = some job)
      (hdue : job.due ≤ engine.world.clock) :
      Moves engine (.report n) { engine with
        world := { engine.world with
          tokens := (engine.world.tokens.settleAll job.token job.settlements).1
          jobs := engine.world.jobs.eraseIdx n } }
  | wait {time : Nat} (hle : engine.world.clock ≤ time) :
      Moves engine (.wait time) { engine with world := { engine.world with clock := time } }
  | settle {token : String} {settlement : Settlement} :
      Moves engine (.settle token settlement) { engine with
        world := { engine.world with
          tokens := (engine.world.tokens.settle token settlement).1 } }

/-- **Every move of an engine is one of these.** -/
theorem moves_of_move (h : engine.move move = some engine') : engine.Moves move engine' := by
  cases move with
  | start place =>
    obtain ⟨e, w, e', he, hstart, rfl⟩ := update?_eq_some h
    obtain ⟨e', hstart, heq⟩ := Option.map_eq_some_iff.mp hstart
    cases heq
    exact .start he hstart
  | leaf place move address =>
    obtain ⟨e, w, e', he, hmove, rfl⟩ := update?_eq_some h
    exact .leaf he hmove
  | abort place address =>
    obtain ⟨e, w, e', he, habort, rfl⟩ := update?_eq_some h
    exact .abort he habort
  | expire place =>
    obtain ⟨e, w, e', he, hexpire, rfl⟩ := update?_eq_some h
    exact .expire he hexpire
  | report n =>
    obtain ⟨job, hjob, h⟩ := Option.bind_eq_some_iff.mp h
    split at h
    · next hdue =>
      cases h
      exact .report hjob hdue
    · cases h
  | wait time =>
    simp only [Engine.move] at h
    split at h
    · next hle =>
      cases h
      exact .wait hle
    · cases h
  | cancel place =>
    obtain ⟨e, w, e', he, hcancel, rfl⟩ := update?_eq_some h
    cases hcancel
    exact .cancel he
  | settle token settlement =>
    cases h
    exact .settle

theorem due_of_report {n : Nat} (h : engine.move (.report n) = some engine') :
    ∃ job, engine.world.jobs[n]? = some job ∧ job.due ≤ engine.world.clock := by
  cases moves_of_move h with
  | report hjob hdue => exact ⟨_, hjob, hdue⟩

/-! ## Executions in place -/

theorem evolves_of_world {w : World} (hmove : ∀ place, move.leafAt? place = none) :
    engine.Evolves move { engine with world := w } := by
  refine ⟨rfl, rfl, fun place e' he' => ⟨e', he', ?_⟩⟩
  rw [hmove]
  exact .same

theorem evolves_of_set {place : Nat} {e e' : Execution} {w : World}
    (he : engine.executions[place]? = some e)
    (h : e.Change engine.services engine.world (move.leafAt? place) e')
    (hother : ∀ other, place ≠ other → move.leafAt? other = none) :
    engine.Evolves move ⟨engine.services, w, engine.executions.set place e'⟩ := by
  refine ⟨rfl, by simp, fun other e'' hplace => ?_⟩
  by_cases hne : place = other
  · -- the one that is changed; the others stay
    subst hne
    have hlt : place < engine.executions.length := (List.getElem?_eq_some_iff.mp he).1
    obtain rfl : e' = e'' := by simpa [List.getElem?_set, hlt] using hplace
    exact ⟨e, he, h⟩
  · rw [List.getElem?_set_ne hne] at hplace
    rw [hother other hne]
    exact ⟨e'', hplace, .same⟩

/-- A move changes the executions in place. -/
theorem evolves_of_move (h : engine.move move = some engine') : engine.Evolves move engine' := by
  cases moves_of_move h with
  | start he hstart => exact evolves_of_set he (.started hstart) fun _ _ => rfl
  | leaf he hmove =>
    refine evolves_of_set he ?_ fun other hne => ?_
    · rw [Move.leafAt?, if_pos rfl]
      exact .moved hmove
    · rw [Move.leafAt?, if_neg hne]
  | abort he habort => exact evolves_of_set he (.aborted habort) fun _ _ => rfl
  | expire he hexpire => exact evolves_of_set he (.expired hexpire) fun _ _ => rfl
  | cancel he => exact evolves_of_set he .cancelled fun _ _ => rfl
  | report | wait | settle => exact evolves_of_world fun _ => rfl

end Engine

end StateFlow
