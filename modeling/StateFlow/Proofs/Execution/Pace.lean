import StateFlow.Proofs.Execution.Ceasing

/-!
# Executions that come to rest

A Wait state whose sleeps take time is not left at the time at which it was entered.  Where every
cycle of every level of a machine has such a state, only so many states can be entered at one time:
along each run the states that do not wait stand in a finite order, and the items of a Map state
have a level of their own.  So whatever moves a run makes at one time, it comes to rest
(`Frame.comesToRest_of_sound`).

## Main definitions

* `State.Pauses`, `Machine.Rushes`: a state that waits, and a step past a state that may not wait
* `Machine.Paced`: every cycle of every level has a state that waits
* `Run.ComesToRest`: the moves that a run makes at one time have an end

## Main results

* `State.pauses_timer`: on the timer every Wait state waits
* `Machine.Paced.acc_rushes`: the states that do not wait stand in a finite order
* `Frame.comesToRest_of_sound`: the runs of a paced machine
-/

namespace StateFlow

/-! ## Paced machines -/

/-- A state that waits: a Wait state, whatever delay it comes to, if its sleep takes time. -/
def State.Pauses (sleeper : Sleeper) : State → Prop
  | .wait w => ∀ name effective now nanoseconds,
    w.nanoseconds name effective now = .ok nanoseconds → 0 < sleeper nanoseconds
  | _ => False

/-- On the timer every Wait state waits, also one without a delay. -/
theorem State.pauses_timer (w : WaitState) : (State.wait w).Pauses .timer :=
  fun _ _ _ _ _ => Nat.lt_of_lt_of_le Nat.one_pos (Nat.le_max_left 1 _)

/-- A state of a level leads to another one, and may do so without waiting. -/
def Machine.Rushes (sleeper : Sleeper) (m : Machine) (name next : String) : Prop :=
  ∃ state, m.state? name = some state ∧ ¬ state.Pauses sleeper ∧ next ∈ state.targets

/-- Every cycle of every level has a state that waits. -/
def Machine.Paced (sleeper : Sleeper) (m : Machine) : Prop :=
  ∀ l, m.HasLevel l → ∀ name, ¬ Relation.TransGen (l.Rushes sleeper) name name

/-- The states of a level that do not wait stand in a finite order. -/
theorem Machine.Paced.acc_rushes {sleeper : Sleeper} {m l : Machine} (h : m.Paced sleeper)
    (hl : m.HasLevel l) (name : String) :
    Acc (fun next name => l.Rushes sleeper name next) name := by
  refine @acc_of_acyclic _ _ (Entries.keys l.states) ?_ (h l hl) name
  rintro source next ⟨state, hs, -⟩
  rw [Entries.mem_keys_iff, ← state?, hs]
  rfl

/-! ## Coming to rest -/

namespace Run

/-- A move that is made at a time. -/
def AtTime (time : Nat) (_ : LeafMove) (s : Situation) : Prop := s.world.clock = time

/-- The moves that a run can make at one time, whatever happens besides, have an end. -/
def ComesToRest (scope : Scope) (time : Nat) (m : Machine) (item? : Option Nat) (run : Run) :
    Prop :=
  Ceases scope (AtTime time) m item? run

variable {scope : Scope} {time : Nat} {m : Machine} {item? : Option Nat} {name : String}
  {input : Json} {state : State}

/-- A Wait state whose delay has not ended stays where it is. -/
theorem comesToRest_of_lt {work : WaitWork} (h : time < work.wakeAt) :
    ComesToRest scope time m item? (.working name input (.wait work)) := by
  refine ceases_of_moves rfl fun move s s' run' htime hmove => ?_
  have htime : s.world.clock = time := htime
  cases hmove with
  | slept hwake => omega
  | woken _ => exact ceases_ended _

theorem comesToRest_of_pauses (hpauses : state.Pauses scope.services.sleeper) {s : Situation}
    (htime : s.world.clock = time) (context : Json) :
    ComesToRest scope time m item? (state.begin scope s name input context).2 := by
  cases state with
  | wait w =>
    simp only [State.begin, WaitState.begin]
    cases w.input.project input with
    | error fault => exact ceases_ended _
    | ok effective =>
      simp only [bind, Except.bind, pure, Except.pure]
      cases hn : w.nanoseconds name effective s.world.now with
      | error fault => exact ceases_ended _
      | ok nanoseconds =>
        have hpos := hpauses name effective s.world.now nanoseconds hn
        apply comesToRest_of_lt
        show time < s.world.clock + scope.services.sleeper nanoseconds
        omega
  | _ => cases hpauses

end Run

/-- **Whatever a paced machine does at one time has an end**: each of its frames comes to rest. -/
theorem Frame.comesToRest_of_sound {root : Machine} {R : Machine → Fault → Prop} {f : Frame}
    {scope : Scope} (h : root.Paced scope.services.sleeper)
    (hf : f.Everywhere (Frame.Sound root R)) (time : Nat) :
    Run.ComesToRest scope time f.machine f.item? f.run := by
  refine Run.ceases_of_sound (fun l hl name => h.acc_rushes hl name) ?_ hf
  intro l item? name state _ hs
  by_cases hpauses : state.Pauses scope.services.sleeper
  · refine .inr fun move s input htime => ?_
    exact Run.comesToRest_of_pauses hpauses (show (s.emit _).world.clock = time from htime) _
  · exact .inl fun next hmem => ⟨state, hs, hpauses, hmem⟩

end StateFlow
