import StateFlow.Proofs.Execution.Cancellation
import StateFlow.Proofs.Execution.Trace

/-!
# How long an execution goes without entering a state

A run that enters no state comes to rest: functions take the steps that they have left, delays end,
states are left, Map states hand over the items that are done and start those that wait.  What is
left of all this is the leeway of the run.  Every move of it lowers the leeway, unless it is the
entry into a state, and then the execution tells so.

## Main definitions

* `Run.leeway`: how many moves a run can make at most before it enters a state
* `Execution.leeway`, `EntersState`: the same for an execution, and that it has entered one

## Main results

* `Run.moveAt_leeway`: a move enters a state or lowers the leeway
* `Execution.Change.leeway`: what others do does not raise it
-/

namespace StateFlow

namespace Run

mutual

/-- How many moves a run can make at most before it enters a state. -/
def leeway : Run → Nat
  | entering _ _ => 1
  | working _ _ work => workLeeway work
  | leaving _ _ => 2
  | ended _ => 0

/-- The same for the work of a state, which is left in the end. -/
def workLeeway : Work → Nat
  | .task work => work.progress.weight + 1
  | .wait _ => 3
  | .map _ _ active waiting => activeLeeway active + 2 * waiting.length + 3

/-- The same for the runs of items. -/
def activeLeeway : List (Nat × Run) → Nat
  | [] => 0
  | (_, run) :: rest => run.leeway + activeLeeway rest

end

theorem leeway_ofOutcome (name : String) (outcome : Except Fault Departure) :
    (ofOutcome name outcome).leeway ≤ 2 := by
  cases outcome with
  | ok departure => simp [ofOutcome, leeway]
  | error fault => simp [ofOutcome, leeway]

theorem leeway_pos {run : Run} (h : run.result? = none) : 0 < run.leeway := by
  cases run with
  | entering name payload => simp [leeway]
  | working name input work =>
    cases work with
    | task work => simp [leeway, workLeeway]
    | wait work => simp [leeway, workLeeway]
    | map frame delivered active waiting => simp [leeway, workLeeway]
  | leaving name departure => simp [leeway]
  | ended result => cases h

theorem activeLeeway_append (active active' : List (Nat × Run)) :
    activeLeeway (active ++ active') = activeLeeway active + activeLeeway active' := by
  induction active with
  | nil => simp [activeLeeway]
  | cons p active ih =>
    simp only [List.cons_append, activeLeeway, ih]
    omega

theorem activeLeeway_setActive {index : Nat} {active : List (Nat × Run)} {old new : Run}
    (hold : active? index active = some old) (hless : new.leeway < old.leeway) :
    activeLeeway (setActive index new active) < activeLeeway active := by
  induction active with
  | nil => cases hold
  | cons p active ih =>
    obtain ⟨i, run⟩ := p
    rw [active?] at hold
    rw [setActive]
    by_cases hi : i = index
    · rw [if_pos hi] at hold
      obtain rfl := Option.some.inj hold
      rw [if_pos hi]
      simp only [activeLeeway]
      omega
    · rw [if_neg hi] at hold
      have := ih hold
      rw [if_neg hi]
      simp only [activeLeeway]
      omega

end Run

/-! ## Map states -/

namespace MapFrame

theorem leeway_startItem (frame : MapFrame) (index : Nat) (item : Json) :
    (frame.startItem index item).leeway ≤ 1 := by
  unfold startItem
  split
  · simp [Run.start, Run.leeway]
  · split
    · simp [Run.start, Run.leeway]
    · simp [Run.leeway]

/-- An item that waits has more leeway than one that has just been started. -/
theorem handOver_leeway {frame : MapFrame} {delivered delivered' : List Json}
    {active active' : List (Nat × Run)} {waiting waiting' : List (Nat × Json)}
    (h : frame.handOver delivered active waiting = .going delivered' active' waiting') :
    Run.activeLeeway active' + 2 * waiting'.length ≤
      Run.activeLeeway active + 2 * waiting.length := by
  fun_induction frame.handOver delivered active waiting with
  | case1 => cases h
  | case2 delivered index output active ih =>
    have := ih h
    simp only [Run.activeLeeway, Run.leeway]
    omega
  | case3 delivered index output active index' item waiting ih =>
    have hnext := ih h
    have hitem := frame.leeway_startItem index' item
    simp only [Run.activeLeeway_append, Run.activeLeeway, Run.leeway, List.length_cons] at hnext ⊢
    omega
  | case4 => cases h
  | case5 =>
    cases h
    exact Nat.le_refl _

theorem settle_leeway (frame : MapFrame) (s : Situation) (name : String) (input : Json)
    (delivered : List Json) (active : List (Nat × Run)) (waiting : List (Nat × Json)) :
    (frame.settle s name input delivered active waiting).2.leeway ≤
      Run.activeLeeway active + 2 * waiting.length + 3 := by
  unfold settle
  split
  · next delivered' active' waiting' heq =>
    have := handOver_leeway heq
    simp only [Run.leeway, Run.workLeeway]
    omega
  · have := Run.leeway_ofOutcome name (frame.settings.outcome input ‹_›)
    show (Run.ofOutcome name _).leeway ≤ _
    omega
  · simp [Run.leeway]

end MapFrame

/-! ## Moves -/

/-- What was told last is the entry into a state. -/
def EntersState (told told' : List Event) : Prop :=
  ∃ name kind payload item?, told' = told ++ [.stateEntered name kind payload item?]

namespace Run

variable {scope : Scope} {move : LeafMove} {m : Machine} {item? : Option Nat} {s s' : Situation}
  {run run' : Run}

/-- A leaf that enters a state was about to enter one. -/
theorem entering_of_entersState (hmove : moveLeaf scope move m item? s run = some (s', run'))
    (henters : EntersState s.events s'.events) : ∃ name payload, run = .entering name payload := by
  obtain ⟨name, kind, payload, item?, hevents⟩ := henters
  have hmoves := moves_of_moveLeaf hmove
  cases run with
  | entering name payload => exact ⟨name, payload, rfl⟩
  | working name input work => simp [hmoves.keeps.events] at hevents
  | leaving name departure =>
    cases hmoves with
    | leaving h => cases h <;> simp [Situation.emit] at hevents
  | ended result => cases hmoves

theorem moveLeaf_leeway (hmove : moveLeaf scope move m item? s run = some (s', run')) :
    EntersState s.events s'.events ∨ run'.leeway < run.leeway := by
  cases moves_of_moveLeaf hmove with
  | entering h =>
    cases h with
    | begun _ _ _ hbegin =>
      obtain rfl : _ = s' := congrArg Prod.fst hbegin
      exact .inl ⟨_, _, _, _, State.begin_events _ _ _ _ _ _⟩
    | cancelled _ => exact .inr (by simp [leeway])
    | unknown _ _ => exact .inr (by simp [leeway])
    | refused _ _ _ => exact .inr (by simp [leeway])
  | leaving h =>
    right
    cases h with
    | cancelled _ => simp [leeway]
    | next _ _ => simp [leeway]
    | last _ _ => simp [leeway]
  | going h =>
    have := h.weight_lt.1
    right
    simp only [leeway, workLeeway]
    omega
  | @done name input work _ result h =>
    have hout := leeway_ofOutcome name (result.bind (work.task.outcome input))
    have hweight := work.progress.one_lt_weight
    right
    simp only [leeway, workLeeway]
    omega
  | timedOut _ _ => exact .inr (by simp [leeway, workLeeway])
  | heeded _ => exact .inr (by simp [leeway, workLeeway])
  | @slept name input work _ =>
    have := leeway_ofOutcome name (work.wait.outcome work.effective)
    right
    simp only [leeway, workLeeway]
    omega
  | woken _ => exact .inr (by simp [leeway, workLeeway])

/-- **A move enters a state or lowers the leeway.** -/
theorem moveAt_leeway {address : List Nat}
    (hmove : moveAt scope move m item? s address run = some (s', run')) :
    EntersState s.events s'.events ∨ run'.leeway < run.leeway := by
  induction address generalizing m item? run s' run' with
  | nil => exact moveLeaf_leeway hmove
  | cons index address ih =>
    obtain ⟨name, input, frame, delivered, active, waiting, old, s₁, new, rfl, hold, hnew, hs⟩ :=
      moveAt_cons hmove
    obtain ⟨tokens, hfst⟩ := frame.settle_fst s₁ name input delivered
      (setActive index new active) waiting
    obtain rfl : s₁.release tokens = s' := hfst.symm.trans (congrArg Prod.fst hs)
    obtain rfl : _ = run' := congrArg Prod.snd hs
    -- settling the Map state tells nothing and takes none of the leeway back
    rcases ih hnew with hentered | hless
    · exact .inl hentered
    · have hactive := activeLeeway_setActive hold hless
      have hsettle :=
        frame.settle_leeway s₁ name input delivered (setActive index new active) waiting
      right
      simp only [leeway, workLeeway]
      omega

end Run

namespace Execution

variable {e e' : Execution} {services : Services} {w : World}
  {leaf? : Option (Run.LeafMove × List Nat)}

/-- How many moves an execution can make at most before it enters a state. -/
def leeway (e : Execution) : Nat :=
  match e.phase with
  | .created => 2
  | .running run _ => run.leeway
  | .finished _ => 0

/-- **An execution enters a state, or its leeway does not grow**, and a move of a leaf lowers it. -/
theorem Change.leeway (h : e.Change services w leaf? e') :
    EntersState e.events e'.events ∨
      (e'.leeway ≤ e.leeway ∧ (leaf?.isSome → e'.leeway < e.leeway)) := by
  cases h with
  | same => exact .inr ⟨Nat.le_refl _, nofun⟩
  | started h =>
    obtain ⟨hphase, started, rfl⟩ := start?_eq_some h
    right
    simp [Execution.leeway, hphase, Run.start, Run.leeway]
  | moved h =>
    obtain ⟨run, deadline?, s, run', hphase, hmove, -, rfl⟩ := moveAt?_eq_some h
    have hold : e.leeway = run.leeway := by simp [Execution.leeway, hphase]
    have hpos := Run.leeway_pos (Run.result?_of_moveAt hmove)
    rcases withRun_cases (e.inSituation s) deadline? run' with ⟨result, -, heq⟩ | ⟨-, heq⟩
    · rw [heq]
      have hnew : ((e.inSituation s).finish result).leeway = 0 := rfl
      exact .inr ⟨by omega, fun _ => by omega⟩
    · rw [heq]
      rcases Run.moveAt_leeway hmove with hentered | hless
      · exact .inl hentered
      · refine .inr ⟨?_, fun _ => ?_⟩
        · show run'.leeway ≤ e.leeway
          omega
        · show run'.leeway < e.leeway
          omega
  | aborted h =>
    obtain ⟨run, deadline?, report, -, -, -, rfl⟩ := abort?_eq_some h
    exact .inr ⟨Nat.zero_le _, nofun⟩
  | expired h =>
    obtain ⟨run, deadline, hphase, -, rfl⟩ := expire?_eq_some h
    exact .inr ⟨Nat.zero_le _, nofun⟩
  | cancelled => exact .inr ⟨Nat.le_refl _, nofun⟩

end Execution

end StateFlow
