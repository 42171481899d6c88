import StateFlow.Proofs.Execution.Cancellation
import StateFlow.Proofs.Execution.MapOrder
import StateFlow.Proofs.Execution.Trace
import StateFlow.Proofs.Machine.Acyclic

/-!
# Runs that cease to move

The moves of a run have an end in two ways.  Those of a function have one, since a function has only
so many steps.  From state to state they have one if the level has no way to go round, or waits on
every such way for what is not allowed to come.  And a Map state, whose items may move in any order,
has only so many items, each of which walks through a smaller machine.

Which moves count, in which situations, is a parameter `allowed`; and how a level leads from state
to state where it does not cease is a parameter `goes`, of which it is asked that it has an end
(`Run.ceases_entering`).

## Main definitions

* `Run.Ceases`: the moves of a run that are allowed have an end

## Main results

* `Run.ceases_map`: a Map state ceases to move if its items do
* `Run.ceases_entering`, `Run.ceases_of_sound`: the runs of the levels of a machine
* `Execution.Change.steps`: the run of an execution moves when one of its leaves does
-/

namespace StateFlow

/-! ## Runs of one level -/

namespace Run

/-- The moves of a run that are allowed have an end, whatever happens besides. -/
def Ceases (scope : Scope) (allowed : LeafMove → Situation → Prop) (m : Machine)
    (item? : Option Nat) (run : Run) : Prop :=
  Acc (fun run' run => Steps scope allowed m item? run run') run

variable {scope : Scope} {allowed : LeafMove → Situation → Prop} {m : Machine} {item? : Option Nat}
  {run run' : Run} {name : String} {input : Json} {state : State}

/-- A move of a run is one of its own or, in a Map state, one of an item. -/
theorem Steps.cases (h : Steps scope allowed m item? run run') :
    (∃ move s s', allowed move s ∧ Moves scope move m item? s run s' run') ∨
      ItemSteps scope allowed m item? run run' := by
  obtain ⟨move, s, address, s', hallowed, hmove⟩ := h
  cases address with
  | nil => exact .inl ⟨move, s, s', hallowed, moves_of_moveLeaf hmove⟩
  | cons index address => exact .inr ⟨move, s, index, address, s', hallowed, hmove⟩

theorem ceases_ended (result : Except Fault Json) :
    Ceases scope allowed m item? (.ended result) :=
  ⟨_, fun run' h => (not_steps_ended result run' h).elim⟩

/-- A leaf ceases to move if it does so after each of its moves. -/
theorem ceases_of_moves (hleaf : run.isLeaf)
    (hmoves : ∀ move s s' run', allowed move s → Moves scope move m item? s run s' run' →
      Ceases scope allowed m item? run') : Ceases scope allowed m item? run := by
  refine ⟨_, fun run' h => ?_⟩
  rcases h.cases with ⟨move, s, s', hallowed, hmove⟩ | ⟨_, _, _, _, _, -, hmove⟩
  · exact hmoves move s s' run' hallowed hmove
  · obtain ⟨_, _, _, _, _, _, _, _, _, rfl, -⟩ := moveAt_cons hmove
    cases hleaf

/-! ### States at work -/

section

/- Where a state leads, the run ceases to move. -/
variable (hnext : ∀ next ∈ state.targets, ∀ payload,
  Ceases scope allowed m item? (.entering next payload))

include hnext

theorem ceases_leaving {departure : Departure} (hleads : state.Leads departure) :
    Ceases scope allowed m item? (.leaving name departure) := by
  refine ceases_of_moves rfl fun move s s' run' _ hmove => ?_
  cases hmove with
  | leaving h =>
    cases h with
    | cancelled _ => exact ceases_ended _
    | next _ hsuccessor => exact hnext _ (hleads _ hsuccessor) _
    | last _ _ => exact ceases_ended _

theorem ceases_ofOutcome {outcome : Except Fault Departure}
    (hleads : Yields state.Leads outcome) :
    Ceases scope allowed m item? (.ofOutcome name outcome) := by
  cases outcome with
  | ok departure => exact ceases_leaving hnext (hleads departure rfl)
  | error fault => exact ceases_ended _

theorem ceases_task {work : TaskWork} (hstate : state = .task work.task) :
    Ceases scope allowed m item? (.working name input (.task work)) := by
  induction hweight : work.progress.weight using Nat.strongRecOn generalizing work with
  | ind weight ih =>
    refine ceases_of_moves rfl fun move s s' run' _ hmove => ?_
    cases hmove with
    | going h => exact ih _ (hweight ▸ h.weight_lt.1) hstate rfl
    | done h =>
      refine ceases_ofOutcome hnext (.bind fun result _ => ?_)
      rw [hstate]
      exact work.task.outcome_leads input result
    | timedOut _ _ => exact ceases_ended _
    | heeded _ => exact ceases_ended _

theorem ceases_wait {work : WaitWork} (hstate : state = .wait work.wait) :
    Ceases scope allowed m item? (.working name input (.wait work)) := by
  refine ceases_of_moves rfl fun move s s' run' _ hmove => ?_
  cases hmove with
  | slept _ =>
    refine ceases_ofOutcome hnext ?_
    rw [hstate]
    exact work.wait.outcome_leads work.effective
  | woken _ => exact ceases_ended _

/-- A run that stands inside a state ceases to move, unless the state is a Map state. -/
theorem ceases_of_standsAt {identity : Identity} (hs : m.state? name = some state)
    (hkind : state.kind ≠ .map) (h : run.StandsAt m identity (.inside name input)) :
    Ceases scope allowed m item? run := by
  cases run with
  | entering name' payload => cases h
  | ended result => exact ceases_ended result
  | leaving name' departure =>
    obtain ⟨input', heq, state', hs', hleads, -⟩ := h
    cases heq
    obtain rfl : state = state' := Option.some.inj (hs.symm.trans hs')
    exact ceases_leaving hnext hleads
  | working name' input' work =>
    obtain ⟨heq, hworks⟩ := h
    cases heq
    cases work with
    | task work => exact ceases_task hnext (Option.some.inj (hs.symm.trans hworks))
    | wait work => exact ceases_wait hnext (Option.some.inj (hs.symm.trans hworks.1))
    | map frame delivered active waiting =>
      obtain ⟨_, _, hworks⟩ := hworks
      obtain rfl := Option.some.inj (hs.symm.trans hworks)
      exact (hkind rfl).elim

end

/-! ### Map states -/

variable {frame : MapFrame} {itemProcessor? iterator? : Option Machine} {delivered : List Json}
  {active : List (Nat × Run)} {waiting : List (Nat × Json)}

theorem ceases_startItem {index : Nat}
    (hstart : ∀ payload, Ceases scope allowed frame.machine (some index)
      (.start frame.machine payload)) (item : Json) :
    Ceases scope allowed frame.machine (some index) (frame.startItem index item) := by
  unfold MapFrame.startItem
  split
  · exact hstart item
  · split
    · exact hstart _
    · exact ceases_ended _

section

/- Where the Map state leads, the run ceases to move, and so does each item from its start on. -/
variable (hnext : ∀ next ∈ (State.map frame.settings itemProcessor? iterator?).targets, ∀ payload,
    Ceases scope allowed m item? (.entering next payload))
  (hstart : ∀ index payload, Ceases scope allowed frame.machine (some index)
    (.start frame.machine payload))
  (hactive : ∀ q ∈ active, Ceases scope allowed frame.machine (some q.1) q.2)

include hnext

/-- A Map state that has been settled ceases to move if it does where it goes on. -/
theorem ceases_settle_of_going
    (hgoing : ∀ delivered' active' waiting',
      frame.handOver delivered active waiting = .going delivered' active' waiting' →
      Ceases scope allowed m item?
        (.working name input (.map frame delivered' active' waiting'))) (s : Situation) :
    Ceases scope allowed m item?
      (frame.settle s name input delivered active waiting).2 := by
  unfold MapFrame.settle
  split
  · exact hgoing _ _ _ ‹_›
  · exact ceases_ofOutcome hnext (frame.settings.outcome_leads _ _ input _)
  · exact ceases_ended _

include hstart hactive

/-- **A Map state ceases to move if its items do**, in whatever order they move. -/
theorem ceases_map :
    Ceases scope allowed m item? (.working name input (.map frame delivered active waiting)) := by
  -- either an item is handed over, or one of those in progress has moved
  induction hlength : active.length + waiting.length using Nat.strongRecOn
    generalizing delivered active waiting with
  | ind count ih =>
    have hacc := MapFrame.acc_activeSteps hactive
    induction hacc with
    | intro active _ ihactive =>
      refine ⟨_, fun run' hstep => ?_⟩
      rcases hstep.cases with ⟨_, _, _, -, hmove⟩ | hitem
      · cases hmove
      obtain ⟨index, old, new, s, hold, hnew, rfl⟩ := MapFrame.itemSteps_cases hitem
      have hset : ∀ q ∈ setActive index new active,
          Ceases scope allowed frame.machine (some q.1) q.2 := by
        intro q hq
        rcases mem_setActive hq with hq | rfl
        · exact hactive q hq
        · exact (hactive _ (mem_of_active? hold)).inv hnew
      have hlengthSet := length_setActive index new active
      refine ceases_settle_of_going hnext (fun delivered' active' waiting' heq => ?_) s
      have hall := @frame.handOver_all _ delivered _ _ hset fun p (_ : p ∈ waiting) =>
        ceases_startItem (hstart p.1) p.2
      rw [heq] at hall
      rcases MapFrame.handOver_length heq with ⟨rfl, rfl, rfl⟩ | hlt
      · exact ihactive _ ⟨index, old, new, hold, hnew, rfl⟩ hset (by omega)
      · exact ih _ (by omega) hall rfl

theorem ceases_settle (s : Situation) :
    Ceases scope allowed m item?
      (frame.settle s name input delivered active waiting).2 := by
  refine ceases_settle_of_going hnext (fun delivered' active' waiting' heq => ?_) s
  have hall := @frame.handOver_all _ delivered _ _ hactive fun p (_ : p ∈ waiting) =>
    ceases_startItem (hstart p.1) p.2
  rw [heq] at hall
  exact ceases_map hnext hstart hall

end

theorem ceases_begin_map {settings : MapSettings}
    (hnext : ∀ next ∈ (State.map settings itemProcessor? iterator?).targets, ∀ payload,
      Ceases scope allowed m item? (.entering next payload))
    (hstart : ∀ inner, processor? itemProcessor? iterator? = some inner → ∀ index payload,
      Ceases scope allowed inner (some index) (.start inner payload))
    (s : Situation) (context : Json) :
    Ceases scope allowed m item?
      (settings.begin (processor? itemProcessor? iterator?) scope s name input context).2 := by
  unfold MapSettings.begin
  split
  · exact ceases_ended _
  · next inner hp =>
    split
    · exact ceases_ended _
    · next effective items _ =>
      refine @ceases_settle _ _ _ _ _ _ ⟨settings, inner, effective, context⟩ _ _ _ _ _ hnext
        (hstart inner hp) (fun q hq => ?_) s
      obtain ⟨p, -, rfl⟩ := List.mem_map.mp hq
      exact ceases_startItem (hstart inner hp p.1) p.2

/-! ### The levels of a machine -/

section

variable {root l : Machine} {goes : Machine → String → String → Prop}
  -- the ways from state to state have an end
  (hends : ∀ l, root.HasLevel l → ∀ name, Acc (fun next name => goes l name next) name)
  -- and where a state leads on none of them, its run ceases once it has begun
  (hgoes : ∀ l item? name state, root.HasLevel l → l.state? name = some state →
    (∀ next ∈ state.targets, goes l name next) ∨
      ∀ move s input, allowed move s → Ceases scope allowed l item?
        (state.begin scope (s.emit (.stateEntered name state.kind input item?)) name input
          (Context.ofState scope.identity name s.world.now)).2)

include hends hgoes

/-- **Where a state is entered, the run ceases to move.** -/
theorem ceases_entering (hl : root.HasLevel l) (item? : Option Nat) (name : String)
    (payload : Json) : Ceases scope allowed l item? (.entering name payload) := by
  induction hsize : sizeOf l using Nat.strongRecOn generalizing l item? name payload with
  | ind size ihitems =>
    have hacc := hends l hl name
    induction hacc generalizing payload with
    | intro name _ ihnext =>
      refine ceases_of_moves rfl fun move s s' run' hallowed hmove => ?_
      cases hmove with
      | entering h =>
        cases h with
        | cancelled _ => exact ceases_ended _
        | unknown _ _ => exact ceases_ended _
        | refused _ _ _ => exact ceases_ended _
        | @begun state _ _ _ hs _ hbegin =>
          obtain rfl : _ = run' := congrArg Prod.snd hbegin
          rcases hgoes l item? name state hl hs with hleads | hceases
          · have hnext : ∀ next ∈ state.targets, ∀ payload,
                Ceases scope allowed l item? (.entering next payload) :=
              fun next hmem payload => ihnext next (hleads next hmem) payload
            cases state with
            | map settings itemProcessor? iterator? =>
              refine ceases_begin_map hnext (fun inner hp index payload => ?_) _ _
              have hmem := Entries.mem_of_get? hs
              have hless : sizeOf inner < size := hsize ▸ Machine.sizeOf_lt_of_mem hmem hp
              exact ihitems _ hless (hl.inside hmem hp) _ _ _ rfl
            | _ => exact ceases_of_standsAt hnext hs nofun (State.begin_standsAt hs _ _ _ _)
          · exact hceases move s payload hallowed

/-- **Each frame that keeps to the levels ceases to move.** -/
theorem ceases_of_sound {R : Machine → Fault → Prop} {f : Frame}
    (hf : f.Everywhere (Frame.Sound root R)) :
    Ceases scope allowed f.machine f.item? f.run := by
  induction hf with
  | @intro f here _ ih =>
    obtain ⟨m, item?, run⟩ := f
    have hnext : ∀ next payload, Ceases scope allowed m item? (.entering next payload) :=
      ceases_entering hends hgoes here.level item?
    have hrun := here.run
    cases run with
    | entering name payload => exact hnext name payload
    | ended result => exact ceases_ended result
    | leaving name departure =>
      obtain ⟨state, -, hleads⟩ := hrun
      exact ceases_leaving (fun next _ => hnext next) hleads
    | working name input work =>
      cases work with
      | task work => exact ceases_task (fun next _ => hnext next) rfl
      | wait work => exact ceases_wait (fun next _ => hnext next) rfl
      | map frame delivered active waiting =>
        obtain ⟨itemProcessor?, iterator?, hs, hp⟩ := hrun
        have hinner := here.level.inside (Entries.mem_of_get? hs) hp
        refine @ceases_map _ _ _ _ _ _ _ itemProcessor? iterator? _ _ _
          (fun next _ => hnext next) ?_ ?_
        · exact fun index => ceases_entering hends hgoes hinner (some index) _
        · exact fun q hq => ih _ (List.mem_map_of_mem hq)

end

end Run

/-! ## Executions -/

namespace Execution

variable {e e' : Execution} {services : Services} {w : World} {run run' : Run}
  {deadline? deadline'? : Option Nat} {leaf? : Option (Run.LeafMove × List Nat)}

/-- While an execution is running, its run moves when one of its leaves does. -/
theorem Change.steps (h : e.Change services w leaf? e') (hphase : e.phase = .running run deadline?)
    (hphase' : e'.phase = .running run' deadline'?)
    {allowed : Run.LeafMove → Situation → Prop} (hallowed : ∀ move, allowed move (e.situation w)) :
    (leaf? = none ∧ run' = run) ∨
      leaf?.isSome ∧ Run.Steps ⟨services, e.identity⟩ allowed e.machine none run run' := by
  cases h with
  | same =>
    rw [hphase] at hphase'
    cases hphase'
    exact .inl ⟨rfl, rfl⟩
  | started h =>
    rw [(start?_eq_some h).1] at hphase
    cases hphase
  | @moved _ _ move address h =>
    obtain ⟨run₀, _, s, new, hphase₀, hmove, -, rfl⟩ := moveAt?_eq_some h
    rw [hphase] at hphase₀
    cases hphase₀
    rcases withRun_cases (e.inSituation s) deadline? new with ⟨result, -, heq⟩ | ⟨-, heq⟩
    · rw [heq] at hphase'
      cases hphase'
    · rw [heq] at hphase'
      cases hphase'
      exact .inr ⟨rfl, move, e.situation w, address, s, hallowed move, hmove⟩
  | aborted h =>
    obtain ⟨_, _, _, -, -, -, rfl⟩ := abort?_eq_some h
    cases hphase'
  | expired h =>
    obtain ⟨_, _, -, -, rfl⟩ := expire?_eq_some h
    cases hphase'
  | cancelled =>
    have hsame : e.phase = .running run' deadline'? := hphase'
    rw [hphase] at hsame
    cases hsame
    exact .inl ⟨rfl, rfl⟩

end Execution

end StateFlow
