import StateFlow.Proofs.Execution.Ceasing
import StateFlow.Proofs.Simulator.History

/-!
# Executions that do not end

An execution that is not given up and does not end runs from some moment on.  If it rests again and
again, the clock goes past every time; and if its run ceases to move, it is still from some moment
on: its run stays what it is, whatever happens besides.

## Main definitions

* `Simulator.History.RunsAt`: what the run of an execution is at a moment

## Main results

* `Simulator.History.exists_running`: an execution that does not end runs from some moment on
* `Simulator.History.exists_late`: time goes on for an execution that rests again and again
* `Simulator.History.RunsAt.exists_still`: a run that ceases to move is still in the end
-/

namespace StateFlow

namespace Simulator

namespace History

variable {h : History} {place n n' : Nat} {e : Execution} {machine : Machine}

/-- An execution that does not end runs until its deadline, if it has one, and after it. -/
theorem exists_running (hpolls : h.Polls place) (he : h.execution? place 0 = some e)
    (hends : ¬ h.Ends place) :
    ∃ n₀ w, ∀ n ≥ n₀, ∃ e' run, h.execution? place n = some e' ∧ e'.machine = e.machine ∧
      e'.phase = .running run (e.machine.timeout?.map (World.deadlineAfter w)) := by
  obtain ⟨n₀, hstart⟩ := hpolls.starts
  refine ⟨n₀ + 1, (h.sim n₀).engine.world, fun n hn => ?_⟩
  obtain ⟨e₀, he₀, hmachine₀⟩ := execution?_of_le he (Nat.zero_le n₀)
  induction n, hn using Nat.le_induction with
  | base =>
    have hserve := h.serves n₀
    rw [hstart] at hserve
    obtain ⟨engine, hmove, heq⟩ := Option.map_eq_some_iff.mp hserve
    obtain ⟨e₁, run, he₁, hmachine, hphase⟩ := Engine.running_of_start hmove he₀
    rw [hmachine₀] at hphase
    refine ⟨e₁, run, ?_, hmachine.trans hmachine₀, hphase⟩
    rw [execution?, ← heq]
    exact he₁
  | succ n _ ih =>
    obtain ⟨e₁, run, he₁, hmachine, hphase⟩ := ih
    obtain ⟨e₂, he₂, hchange⟩ := execution?_succ he₁
    rcases hchange.keepsDeadline hphase with ⟨run', hphase'⟩ | hresult
    · exact ⟨e₂, run', he₂, hchange.fixed.1.trans hmachine, hphase'⟩
    · refine (hends ⟨n + 1, ?_⟩).elim
      rw [Engine.result?, ← execution?, he₂]
      exact hresult

/-- Time goes on for an execution that rests again and again. -/
theorem exists_late (hpolls : h.Polls place) (hrests : ∀ n' ≥ n, ∃ k ≥ n', h.IsResting place k)
    (time : Nat) : ∃ n' ≥ n, time ≤ h.clock n' := by
  induction time with
  | zero => exact ⟨n, Nat.le_refl _, Nat.zero_le _⟩
  | succ time ih =>
    obtain ⟨n₀, hn₀, htime⟩ := ih
    obtain ⟨n₁, hn₁, hresting⟩ := hrests n₀ hn₀
    obtain ⟨n₂, hn₂, hless⟩ := hpolls.timePasses n₁ hresting
    have hle := clock_le_of_le (h := h) hn₁
    exact ⟨n₂, by omega, by omega⟩

/-! ### Runs from moment to moment -/

/-- At a moment, the execution at a place has come to a run. -/
def RunsAt (h : History) (place n : Nat) (scope : Scope) (m : Machine) (run : Run) : Prop :=
  ∃ e deadline?, h.execution? place n = some e ∧ e.phase = .running run deadline? ∧
    e.machine = m ∧ (⟨(h.sim n).engine.services, e.identity⟩ : Scope) = scope

namespace RunsAt

variable {scope : Scope} {run : Run} {allowed : Run.LeafMove → Situation → Prop}

theorem succ (hruns : h.RunsAt place n scope machine run) (hrunning : h.IsRunning place (n + 1))
    (hallowed : ∀ move s, s.world = (h.sim n).engine.world → allowed move s) :
    ∃ run', h.RunsAt place (n + 1) scope machine run' ∧
      (((h.request n).leafAt? place = none ∧ run' = run) ∨
        ((h.request n).leafAt? place).isSome ∧ Run.Steps scope allowed machine none run run') := by
  obtain ⟨e, deadline?, he, hphase, rfl, rfl⟩ := hruns
  obtain ⟨e', he', hchange⟩ := execution?_succ he
  obtain ⟨e₁, run', deadline'?, he₁, hphase'⟩ := hrunning
  obtain rfl : e' = e₁ := Option.some.inj (he'.symm.trans he₁)
  have hscope : (⟨(h.sim (n + 1)).engine.services, e'.identity⟩ : Scope) =
      ⟨(h.sim n).engine.services, e.identity⟩ := by
    rw [serve?_services (h.serves n), hchange.fixed.2]
  exact ⟨run', ⟨e', deadline'?, he', hphase', hchange.fixed.1, hscope⟩,
    hchange.steps hphase hphase' fun move => hallowed move _ rfl⟩

/-- While it is running, its moves are those that are allowed. -/
theorem of_le (hruns : h.RunsAt place n scope machine run) (hle : n ≤ n')
    (hrunning : ∀ k ≥ n, h.IsRunning place k)
    (hallowed : ∀ k ≥ n, ∀ move s, s.world = (h.sim k).engine.world → allowed move s) :
    ∃ run', h.RunsAt place n' scope machine run' ∧
      Relation.ReflTransGen (Run.Steps scope allowed machine none) run run' := by
  induction n', hle using Nat.le_induction with
  | base => exact ⟨run, hruns, .refl⟩
  | succ n' hle ih =>
    obtain ⟨run₁, hruns₁, hreach⟩ := ih
    obtain ⟨run₂, hruns₂, hsteps⟩ :=
      hruns₁.succ (hrunning (n' + 1) (Nat.le_succ_of_le hle)) (hallowed n' hle)
    refine ⟨run₂, hruns₂, ?_⟩
    rcases hsteps with ⟨-, rfl⟩ | ⟨-, hsteps⟩
    · exact hreach
    · exact hreach.tail hsteps

/-- A run of which no leaf moves stays what it is. -/
theorem of_still (hruns : h.RunsAt place n scope machine run) (hle : n ≤ n')
    (hrunning : ∀ k ≥ n, h.IsRunning place k)
    (hstill : ∀ k ≥ n, (h.request k).leafAt? place = none) :
    h.RunsAt place n' scope machine run := by
  induction n', hle using Nat.le_induction with
  | base => exact hruns
  | succ n' hle ih =>
    obtain ⟨run', hruns', ⟨-, rfl⟩ | ⟨hleaf, -⟩⟩ :=
      @succ _ _ _ _ _ _ (fun _ _ => True) ih (hrunning (n' + 1) (Nat.le_succ_of_le hle))
        fun _ _ _ => trivial
    · exact hruns'
    · rw [hstill n' hle] at hleaf
      cases hleaf

/-- **A run that ceases to move is still in the end.** -/
theorem exists_still (hruns : h.RunsAt place n scope machine run)
    (hrunning : ∀ k ≥ n, h.IsRunning place k)
    (hallowed : ∀ k ≥ n, ∀ move s, s.world = (h.sim k).engine.world → allowed move s)
    (hceases : run.Ceases scope allowed machine none) :
    ∃ n' ≥ n, ∃ run', h.RunsAt place n' scope machine run' ∧
      ∀ k ≥ n', (h.request k).leafAt? place = none := by
  -- some moves, not just one, lie between two moments at which a leaf moves
  have hacc := hceases.transGen
  clear hceases
  induction hacc generalizing n with
  | intro run _ ih =>
    by_cases hstill : ∀ k ≥ n, (h.request k).leafAt? place = none
    · exact ⟨n, Nat.le_refl n, run, hruns, hstill⟩
    · simp only [not_forall] at hstill
      obtain ⟨n₁, hn₁, hleaf⟩ := hstill
      obtain ⟨run₁, hruns₁, hreach⟩ := hruns.of_le hn₁ hrunning hallowed
      obtain ⟨run₂, hruns₂, hsteps⟩ :=
        hruns₁.succ (hrunning (n₁ + 1) (Nat.le_succ_of_le hn₁)) (hallowed n₁ hn₁)
      rcases hsteps with ⟨hnone, -⟩ | ⟨-, hsteps⟩
      · exact (hleaf hnone).elim
      · obtain ⟨n', hn', hfound⟩ := ih run₂ (Relation.transGen_swap.mpr (.tail' hreach hsteps))
          hruns₂ (fun k hk => hrunning k (by omega)) fun k hk => hallowed k (by omega)
        exact ⟨n', by omega, hfound⟩

end RunsAt

end History

end Simulator

end StateFlow
