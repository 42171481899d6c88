import StateFlow.Execution.Step

/-!
# The moves of a leaf

What a move of a leaf can be is said here once, with what allows it: for the function of a task, for
a task, for entering and leaving a state, and for a leaf (`Run.Moves`).  Invariants of runs are case
analyses of these, and none of them opens the step functions again.

## Main definitions

* `Behaviour.Advances`, `TaskWork.Advances`: the next steps of a function and of a task
* `Run.Enters`, `Run.Leaves`: how a state is entered and left
* `Run.Moves`: the moves of a leaf
* `Situation.Keeps`: what every step at work leaves alone

## Main results

* `Behaviour.advances_of_advance`, `TaskWork.advances_of_advance`, `Run.moves_of_moveLeaf`
* `Run.Enters.of_cancelled`, `Run.Leaves.of_cancelled`: a cancelled execution stays where it is
* `Run.Moves.keeps`: a leaf at work makes no calls and no events
-/

namespace StateFlow

/-! ## What is left alone -/

/-- No time has passed, no call was made, nothing was told, and no cancellation was taken back. -/
structure Situation.Keeps (s s' : Situation) : Prop where
  clock : s'.world.clock = s.world.clock
  calls : s'.world.calls = s.world.calls
  events : s'.events = s.events
  cancelled : s.cancelled = true → s'.cancelled = true

namespace Situation.Keeps

variable {s s' s'' : Situation}

theorem refl (s : Situation) : s.Keeps s := ⟨rfl, rfl, rfl, id⟩

theorem release (s : Situation) (tokens : List String) : s.Keeps (s.release tokens) :=
  ⟨rfl, rfl, rfl, id⟩

theorem trans (h : s.Keeps s') (h' : s'.Keeps s'') : s.Keeps s'' :=
  ⟨h'.clock.trans h.clock, h'.calls.trans h.calls, h'.events.trans h.events,
    fun hs => h'.cancelled (h.cancelled hs)⟩

end Situation.Keeps

/-! ## Functions -/

namespace Behaviour

/-- What is left of a function after its next step; none where it answers, hangs or panics. -/
def rest? : Behaviour → Option Behaviour
  | pause _ rest | cancel rest | settle _ _ rest | settleLater _ _ _ rest => some rest
  | answer _ | hang | panic _ => none

/-- The ways in which the next step of a function goes. -/
inductive Advances (state : String) (token? : Option String) (s : Situation) :
    Behaviour → TaskAdvance → Prop
  | result {output : Json} (h : token? = none) :
      Advances state token? s (.answer (.ok output)) (.done (.ok output))
  /-- What a callback function returns is dropped. -/
  | returned {output : Json} (h : token?.isSome) :
      Advances state token? s (.answer (.ok output)) (.going .awaiting)
  -- by its own answer, or by a report that was refused
  | failed {b : Behaviour} {message : String} :
      Advances state token? s b (.done (.error (taskFault state message)))
  | asleep {milliseconds : Nat} {rest : Behaviour} :
      Advances state token? s (.pause milliseconds rest)
        (.going (.paused (s.world.clock + milliseconds) rest))
  | acting {b rest : Behaviour} (h : b.rest? = some rest) :
      Advances state token? s b (.going (.acting rest))

variable {state : String} {token? : Option String} {s s' : Situation} {b : Behaviour}
  {adv : TaskAdvance}

theorem advances_of_advance (h : b.advance state token? s = some (s', adv)) :
    Advances state token? s b adv := by
  cases b with
  | answer outcome =>
    cases outcome with
    | ok output =>
      simp only [advance, Option.some.injEq, Prod.mk.injEq] at h
      obtain ⟨-, rfl⟩ := h
      split
      · next htoken => exact .returned htoken
      · next htoken => exact .result (Option.not_isSome_iff_eq_none.mp htoken)
    | error message =>
      cases h
      exact .failed
  | pause milliseconds rest =>
    cases milliseconds with
    | zero =>
      cases h
      exact .acting rfl
    | succ milliseconds =>
      cases h
      exact .asleep
  | cancel rest =>
    cases h
    exact .acting rfl
  | settle token settlements rest =>
    simp only [advance] at h
    split at h
    · cases h
      exact .acting rfl
    · -- a refused report fails the call
      cases h
      exact .failed
  | settleLater milliseconds token settlements rest =>
    cases h
    exact .acting rfl
  | hang | panic => cases h

/-- A step of a function concerns the tokens and the reports, and may cancel the execution. -/
theorem advance_keeps (h : b.advance state token? s = some (s', adv)) : s.Keeps s' := by
  cases b with
  | answer outcome => cases outcome <;> cases h <;> exact .refl _
  | pause milliseconds rest => cases milliseconds <;> cases h <;> exact .refl _
  | cancel rest =>
    cases h
    exact ⟨rfl, rfl, rfl, fun _ => rfl⟩
  | settle token settlements rest =>
    simp only [advance] at h
    split at h <;> cases h <;> exact ⟨rfl, rfl, rfl, id⟩
  | settleLater milliseconds token settlements rest =>
    cases h
    exact ⟨rfl, rfl, rfl, id⟩
  | hang | panic => cases h

end Behaviour

/-! ## Tasks -/

namespace TaskWork

/-- The ways in which the next step of a task goes. -/
inductive Advances (work : TaskWork) (state : String) (s : Situation) :
    Situation → TaskAdvance → Prop
  | acting {b : Behaviour} {s' : Situation} {adv : TaskAdvance}
      (hprogress : work.progress = .acting b)
      (h : b.advance state work.token? s = some (s', adv)) : Advances work state s s' adv
  | awake {wakeAt : Nat} {rest : Behaviour} (hprogress : work.progress = .paused wakeAt rest)
      (h : wakeAt ≤ s.world.clock) : Advances work state s s (.going (.acting rest))
  | completed {token : String} {result : Except Fault Json}
      (hprogress : work.progress = .awaiting) (htoken : work.token? = some token)
      (h : awaitedResult? state token (s.world.tokens.peek token) = some result) :
      Advances work state s s (.done result)
  | interrupted (hprogress : work.progress = .awaiting) (h : s.cancelled = true) :
      Advances work state s s (.done (.error .cancelled))

variable {work : TaskWork} {state : String} {s s' : Situation} {adv : TaskAdvance}

theorem advances_of_advance (h : work.advance state s = some (s', adv)) :
    work.Advances state s s' adv := by
  unfold advance at h
  split at h
  · next b hprogress => exact .acting hprogress h
  · next wakeAt rest hprogress =>
    split at h
    · next hawake =>
      cases h
      exact .awake hprogress hawake
    · cases h
  · next hprogress =>
    split at h
    · cases h
    · next token htoken =>
      split at h
      -- a completion that has come is taken before the cancellation is looked at
      · next result hresult =>
        cases h
        exact .completed hprogress htoken hresult
      · split at h
        · next hcancelled =>
          cases h
          exact .interrupted hprogress hcancelled
        · cases h

theorem Advances.keeps (h : work.Advances state s s' adv) : s.Keeps s' := by
  cases h with
  | acting _ h => exact Behaviour.advance_keeps h
  | awake _ _ => exact .refl s
  | completed _ _ _ => exact .refl s
  | interrupted _ _ => exact .refl s

end TaskWork

/-! ## Entering and leaving -/

namespace Run

/-- The ways in which a state is entered. -/
inductive Enters (scope : Scope) (m : Machine) (item? : Option Nat) (s : Situation)
    (name : String) (input : Json) : Situation → Run → Prop
  | cancelled (h : s.cancelled = true) :
      Enters scope m item? s name input s (.ended (.error .cancelled))
  | unknown (hactive : s.cancelled = false) (h : m.state? name = none) :
      Enters scope m item? s name input s (.ended (.error (.stateNotFound name)))
  | refused {state : State} (hactive : s.cancelled = false) (hs : m.state? name = some state)
      (h : state.kind ∉ scope.services.kinds) :
      Enters scope m item? s name input s (.ended (.error (Services.kindFault state.kind)))
  | begun {state : State} {s' : Situation} {new : Run} (hactive : s.cancelled = false)
      (hs : m.state? name = some state) (hkind : state.kind ∈ scope.services.kinds)
      (h : state.begin scope (s.emit (.stateEntered name state.kind input item?)) name input
        (Context.ofState scope.identity name s.world.now) = (s', new)) :
      Enters scope m item? s name input s' new

/-- The ways in which a state is left. -/
inductive Leaves (item? : Option Nat) (s : Situation) (name : String) (departure : Departure) :
    Situation → Run → Prop
  | cancelled (h : s.cancelled = true) :
      Leaves item? s name departure s (.ended (.error .cancelled))
  | next {next : String} (hactive : s.cancelled = false) (h : departure.successor? = some next) :
      Leaves item? s name departure (s.emit (.stateExited name departure.payload item?))
        (.entering next departure.payload)
  | last (hactive : s.cancelled = false) (h : departure.successor? = none) :
      Leaves item? s name departure (s.emit (.stateExited name departure.payload item?))
        (.ended (.ok departure.payload))

theorem enters_enter (scope : Scope) (m : Machine) (item? : Option Nat) (s : Situation)
    (name : String) (input : Json) :
    Enters scope m item? s name input (enter scope m item? s name input).1
      (enter scope m item? s name input).2 := by
  unfold enter
  split
  · next hcancelled => exact .cancelled hcancelled
  · next hactive =>
    have hactive : s.cancelled = false := Bool.eq_false_iff.mpr hactive
    split
    · next hnone => exact .unknown hactive hnone
    · next state hs =>
      unfold Services.checkKind
      split
      · next fault hkind =>
        split at hkind
        · cases hkind
        · next hmem =>
          cases hkind
          exact .refused hactive hs hmem
      · next hkind =>
        split at hkind
        · next hmem => exact .begun hactive hs hmem rfl
        · cases hkind

theorem leaves_leave (item? : Option Nat) (s : Situation) (name : String) (departure : Departure) :
    Leaves item? s name departure (leave item? s name departure).1
      (leave item? s name departure).2 := by
  unfold leave
  split
  · next hcancelled => exact .cancelled hcancelled
  · next hactive =>
    dsimp only
    split
    · next next hnext => exact .next (Bool.eq_false_iff.mpr hactive) hnext
    · next hnone => exact .last (Bool.eq_false_iff.mpr hactive) hnone

/-- A cancelled execution enters no state. -/
theorem Enters.of_cancelled {scope : Scope} {m : Machine} {item? : Option Nat} {s s' : Situation}
    {name : String} {input : Json} {new : Run} (hs : s.cancelled = true)
    (h : Enters scope m item? s name input s' new) : s' = s ∧ new = .ended (.error .cancelled) := by
  have hne : s.cancelled ≠ false := Bool.ne_false_iff.mpr hs
  cases h with
  | cancelled _ => exact ⟨rfl, rfl⟩
  | unknown hactive _ => exact (hne hactive).elim
  | refused hactive _ _ => exact (hne hactive).elim
  | begun hactive _ _ _ => exact (hne hactive).elim

/-- A cancelled execution leaves no state. -/
theorem Leaves.of_cancelled {item? : Option Nat} {s s' : Situation} {name : String}
    {departure : Departure} {new : Run} (hs : s.cancelled = true)
    (h : Leaves item? s name departure s' new) : s' = s ∧ new = .ended (.error .cancelled) := by
  have hne : s.cancelled ≠ false := Bool.ne_false_iff.mpr hs
  cases h with
  | cancelled _ => exact ⟨rfl, rfl⟩
  | next hactive _ => exact (hne hactive).elim
  | last hactive _ => exact (hne hactive).elim

/-! ## Leaves -/

/-- The moves of a leaf. -/
inductive Moves (scope : Scope) (move : LeafMove) (m : Machine) (item? : Option Nat)
    (s : Situation) : Run → Situation → Run → Prop
  | entering {name : String} {input : Json} {s' : Situation} {new : Run}
      (h : Enters scope m item? s name input s' new) :
      Moves scope move m item? s (.entering name input) s' new
  | leaving {name : String} {departure : Departure} {s' : Situation} {new : Run}
      (h : Leaves item? s name departure s' new) :
      Moves scope move m item? s (.leaving name departure) s' new
  | going {name : String} {input : Json} {work : TaskWork} {s' : Situation} {progress : Progress}
      (h : work.Advances name s s' (.going progress)) :
      Moves scope move m item? s (.working name input (.task work)) s'
        (.working name input (.task { work with progress }))
  | done {name : String} {input : Json} {work : TaskWork} {s' : Situation}
      {result : Except Fault Json} (h : work.Advances name s s' (.done result)) :
      Moves scope move m item? s (.working name input (.task work)) (s'.release work.token?.toList)
        (.ofOutcome name (result.bind (work.task.outcome input)))
  | timedOut {name : String} {input : Json} {work : TaskWork} (h : work.isDue s.world.clock)
      (hmove : move = .expire) :
      Moves scope move m item? s (.working name input (.task work)) (s.release work.token?.toList)
        (.ended (.error (.taskTimedOut name (work.task.timeout?.getD 0))))
  -- given up for the cancellation, while its function is still at work or after it
  | heeded {name : String} {input : Json} {work : TaskWork} (h : s.cancelled = true) :
      Moves scope move m item? s (.working name input (.task work)) (s.release work.token?.toList)
        (.ended (.error .cancelled))
  | slept {name : String} {input : Json} {work : WaitWork} (h : work.wakeAt ≤ s.world.clock) :
      Moves scope move m item? s (.working name input (.wait work)) s
        (.ofOutcome name (work.wait.outcome work.effective))
  | woken {name : String} {input : Json} {work : WaitWork} (h : s.cancelled = true) :
      Moves scope move m item? s (.working name input (.wait work)) s (.ended (.error .cancelled))

variable {scope : Scope} {move : LeafMove} {m : Machine} {item? : Option Nat} {s s' : Situation}
  {run new : Run}

theorem moves_of_task {name : String} {input : Json} {work : TaskWork}
    (h : moveLeaf scope move m item? s (.working name input (.task work)) = some (s', new)) :
    Moves scope move m item? s (.working name input (.task work)) s' new := by
  cases move with
  | step =>
    obtain ⟨⟨s₁, adv⟩, hadv, hnew⟩ := Option.map_eq_some_iff.mp h
    have hadvances := TaskWork.advances_of_advance hadv
    cases adv with
    | going progress =>
      cases hnew
      exact .going hadvances
    | done result =>
      cases hnew
      exact .done hadvances
  | expire =>
    simp only [moveLeaf, expireLeaf, TaskWork.expire] at h
    split at h
    · next hdue =>
      cases h
      exact .timedOut hdue.1 rfl
    · cases h
  | heed =>
    simp only [moveLeaf, heedLeaf, TaskWork.heed] at h
    split at h
    · split at h
      · next hcancelled =>
        cases h
        exact .heeded hcancelled
      · cases h
    · cases h

theorem moves_of_wait {name : String} {input : Json} {work : WaitWork}
    (h : moveLeaf scope move m item? s (.working name input (.wait work)) = some (s', new)) :
    Moves scope move m item? s (.working name input (.wait work)) s' new := by
  cases move with
  | step =>
    simp only [moveLeaf, stepLeaf, WaitWork.step] at h
    split at h
    -- a wait that is over is left, even where the cancellation could be heeded
    · next hslept =>
      cases h
      exact .slept hslept
    · split at h
      · next hcancelled =>
        cases h
        exact .woken hcancelled
      · cases h
  | expire => cases h
  | heed =>
    simp only [moveLeaf, heedLeaf, WaitWork.heed] at h
    split at h
    · next hcancelled =>
      cases h
      exact .woken hcancelled
    · cases h

/-- **What moves is a leaf, and these are its moves.** -/
theorem moves_of_moveLeaf (h : moveLeaf scope move m item? s run = some (s', new)) :
    Moves scope move m item? s run s' new := by
  cases run with
  | entering name input =>
    cases move with
    | step =>
      have heq : enter scope m item? s name input = (s', new) := Option.some.inj h
      have henters := enters_enter scope m item? s name input
      rw [heq] at henters
      exact .entering henters
    | expire => cases h
    | heed => cases h
  | leaving name departure =>
    cases move with
    | step =>
      have heq : leave item? s name departure = (s', new) := Option.some.inj h
      have hleaves := leaves_leave item? s name departure
      rw [heq] at hleaves
      exact .leaving hleaves
    | expire => cases h
    | heed => cases h
  | ended result => cases move <;> cases h
  | working name input work =>
    cases work with
    | map frame delivered active waiting => cases move <;> cases h
    | task work => exact moves_of_task h
    | wait work => exact moves_of_wait h

/-- A leaf at work makes no calls and no events. -/
theorem Moves.keeps {name : String} {input : Json} {work : Work}
    (h : Moves scope move m item? s (.working name input work) s' new) : s.Keeps s' := by
  cases h with
  | going h => exact h.keeps
  | done h => exact h.keeps.trans (.release _ _)
  | timedOut _ => exact .release s _
  | heeded _ => exact .release s _
  | slept _ => exact .refl s
  | woken _ => exact .refl s

end Run

end StateFlow
