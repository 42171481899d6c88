import StateFlow.Proofs.Execution.Pace
import StateFlow.Proofs.Simulator.Unending

/-!
# What the deadline of an execution bounds

The deadline of an execution is looked at when none of its leaves can move, so it bounds the waiting
of an execution and not its work.  An execution with a deadline that is never given up ends unless
from some moment on one of its leaves can always move, and then it enters states again and again
(`Simulator.History.ends_iff_not_spins`).  Where every cycle of the machine has a state that waits
and computing takes no time, this cannot be, and the deadline bounds the whole execution
(`Simulator.History.ends_of_paced`).

## Main definitions

* `Simulator.circling`, `Simulator.pacing`: two machines whose one state leads to itself; the first
  never waits

## Main results

* `Simulator.History.exists_ready`: an execution that does not end can always move in the end
* `Simulator.History.exists_enters`: one that can always move enters a state some time
* `Simulator.History.ends_iff_not_spins`: an execution with a deadline ends unless it spins
* `Simulator.History.ends_of_paced`: an execution of a paced machine with a deadline ends
* `Simulator.History.bounded_by_deadline`: both together
* `Simulator.result?_circling`: an execution that never waits does not end by its deadline
-/

namespace StateFlow

namespace Simulator

namespace History

variable {h : History} {place n n' : Nat} {e e' : Execution} {machine : Machine}

/-! ### An execution that does not end -/

/-- **An execution that does not end can always move in the end**: it does not come to rest once its
deadline has passed. -/
theorem exists_ready (hpolls : h.Polls place) (he : h.execution? place 0 = some e) {seconds : Nat}
    (htimeout : e.machine.timeout? = some seconds) (hends : ¬ h.Ends place) :
    ∃ n₀ deadline, ∀ n ≥ n₀, h.IsReady place n ∧ ∃ e' run, h.execution? place n = some e' ∧
      e'.machine = e.machine ∧ e'.phase = .running run (some deadline) := by
  obtain ⟨n₀, w, hrunning⟩ := exists_running hpolls he hends
  rw [htimeout] at hrunning
  by_contra hnot
  have hrests : ∀ n ≥ n₀, ∃ n' ≥ n, h.IsResting place n' := by
    intro n hn
    by_contra hnone
    refine hnot ⟨n, w.deadlineAfter seconds,
      fun n' hn' => ⟨?_, hrunning n' (Nat.le_trans hn hn')⟩⟩
    obtain ⟨e', run, he', -, hphase⟩ := hrunning n' (Nat.le_trans hn hn')
    refine ⟨e', he', fun hnil => hnone ⟨n', hn', e', run, _, he', hphase, hnil⟩⟩
  obtain ⟨n, hn, hdue⟩ := exists_late hpolls hrests (w.deadlineAfter seconds)
  obtain ⟨n', hn', e', run, deadline?, he', hphase, hnil⟩ := hrests n hn
  obtain ⟨e₁, run₁, he₁, -, hphase₁⟩ := hrunning n' (Nat.le_trans hn hn')
  obtain rfl : e' = e₁ := Option.some.inj (he'.symm.trans he₁)
  have hlater := Nat.le_trans hdue (clock_le_of_le hn')
  have hexpires := Engine.isSome_move_expire he' hphase₁ hlater hnil
  have hserve := h.serves n'
  rw [hpolls.timesOut n' hexpires] at hserve
  obtain ⟨engine, hmove, heq⟩ := Option.map_eq_some_iff.mp hserve
  refine hends ⟨n' + 1, ?_⟩
  rw [← heq]
  exact Engine.isSome_result?_of_expire hmove

/-! ### An execution that can always move -/

theorem leeway_le_of_le (hle : n ≤ n') (he : h.execution? place n = some e)
    (he' : h.execution? place n' = some e') :
    (∃ k ≥ n, h.Enters place k) ∨ e'.leeway ≤ e.leeway := by
  induction n', hle using Nat.le_induction generalizing e' with
  | base =>
    obtain rfl : e = e' := Option.some.inj (he.symm.trans he')
    exact .inr (Nat.le_refl _)
  | succ n' hle ih =>
    obtain ⟨e₁, he₁, -⟩ := execution?_of_le he hle
    obtain ⟨e₂, he₂, hchange⟩ := execution?_succ he₁
    obtain rfl : e₂ = e' := Option.some.inj (he₂.symm.trans he')
    rcases ih he₁ with hentered | hlow
    · exact .inl hentered
    · rcases hchange.leeway with hentered | ⟨hlower, -⟩
      · exact .inl ⟨n', hle, e₁, e₂, he₁, he₂, hentered⟩
      · exact .inr (Nat.le_trans hlower hlow)

/-- **An execution that can always move enters a state some time**: its other moves use up its
leeway. -/
theorem exists_enters (hpolls : h.Polls place) (hready : ∀ n' ≥ n, h.IsReady place n')
    (he : h.execution? place n = some e) : ∃ k ≥ n, h.Enters place k := by
  induction hleeway : e.leeway using Nat.strongRecOn generalizing n e with
  | ind leeway ih =>
    obtain ⟨n₁, hn₁, hmoves⟩ := hpolls.moves_or_ends (hready n (Nat.le_refl n))
    have hleaf : ((h.request n₁).leafAt? place).isSome :=
      hmoves.resolve_right fun hended =>
        not_isReady_of_result? hended (Nat.le_refl _) (hready (n₁ + 1) (by omega))
    obtain ⟨e₁, he₁, -⟩ := execution?_of_le he hn₁
    obtain ⟨e₂, he₂, hchange⟩ := execution?_succ he₁
    rcases leeway_le_of_le hn₁ he he₁ with hentered | hlow
    · exact hentered
    · rcases hchange.leeway with hentered | ⟨-, hless⟩
      · exact ⟨n₁, hn₁, e₁, e₂, he₁, he₂, hentered⟩
      · have hlower : e₂.leeway < leeway := by
          have := hless hleaf
          omega
        obtain ⟨k, hk, hentered⟩ :=
          ih e₂.leeway hlower (fun n' hn' => hready n' (by omega)) he₂ rfl
        exact ⟨k, by omega, hentered⟩

/-- **An execution with a deadline ends unless it spins**: unless from some moment on one of its
leaves can always move, and enters states again and again. -/
theorem ends_iff_not_spins {before : Simulator} {name : String} {input : Json} {seconds : Nat}
    (hmachine : before.machine? name = some machine) (htimeout : machine.timeout? = some seconds)
    (hstart : before.start name input = .ok (h.sim 0, place)) (hpolls : h.Polls place) :
    h.Ends place ↔ ¬ h.Spins place := by
  obtain ⟨machine', hmachine', executionName, he⟩ := start_eq_ok hstart
  obtain rfl : machine = machine' := Option.some.inj (hmachine.symm.trans hmachine')
  constructor
  · rintro ⟨n, hended⟩ ⟨n₀, hspins⟩
    exact not_isReady_of_result? hended (Nat.le_max_left n n₀) (hspins _ (Nat.le_max_right n n₀)).1
  · intro hspins
    by_contra hends
    obtain ⟨n₀, deadline, hready⟩ := exists_ready hpolls he htimeout hends
    refine hspins ⟨n₀, fun n hn => ⟨(hready n hn).1, ?_⟩⟩
    obtain ⟨e, _, he, -⟩ := (hready n hn).2
    exact exists_enters hpolls (fun n' hn' => (hready n' (Nat.le_trans hn hn')).1) he

/-! ### Paced machines -/

/-- **A paced machine ends by its deadline**, if no time passes while the execution can move. -/
theorem ends_of_paced {before : Simulator} {name : String} {input : Json} {seconds : Nat}
    (hmachine : before.machine? name = some machine) (htimeout : machine.timeout? = some seconds)
    (hstart : before.start name input = .ok (h.sim 0, place)) (hpolls : h.Polls place)
    (hatOnce : h.MovesAtOnce place) (hpaced : machine.Paced (h.sim 0).engine.services.sleeper) :
    h.Ends place := by
  obtain ⟨machine', hmachine', executionName, he⟩ := start_eq_ok hstart
  obtain rfl : machine = machine' := Option.some.inj (hmachine.symm.trans hmachine')
  by_contra hends
  obtain ⟨n₀, deadline, hready⟩ := exists_ready hpolls he htimeout hends
  obtain ⟨e₀, run₀, he₀, hmachine₀, hphase₀⟩ := (hready n₀ (Nat.le_refl n₀)).2
  have htime : ∀ n ≥ n₀, h.clock n = h.clock n₀ := by
    intro n hn
    induction n, hn using Nat.le_induction with
    | base => rfl
    | succ n hn ih => exact (hatOnce n (hready n hn).1).trans ih
  have hsound : e₀.Sound fun _ _ => True := sound_of_le (Nat.zero_le n₀) he trivial he₀
  have hframes : Frame.Everywhere (Frame.Sound e₀.machine fun _ _ => True)
      ⟨e₀.machine, none, run₀⟩ := by
    simpa only [Execution.Sound, hphase₀] using hsound
  rw [hmachine₀] at hframes
  have hruns : h.RunsAt place n₀ ⟨(h.sim n₀).engine.services, e₀.identity⟩ machine run₀ :=
    ⟨e₀, some deadline, he₀, hphase₀, hmachine₀, rfl⟩
  rw [← services_eq n₀] at hpaced
  -- whatever moves at one time comes to rest
  obtain ⟨n₁, hn₁, -, -, hstill⟩ :=
    hruns.exists_still (fun n hn => (hready n hn).1.isRunning)
      (fun n hn move s hs => (congrArg World.clock hs).trans (htime n hn))
      (Frame.comesToRest_of_sound (f := ⟨machine, none, run₀⟩) hpaced hframes _)
  obtain ⟨n₂, hn₂, hleaf | hended⟩ := hpolls.moves_or_ends (hready n₁ hn₁).1
  · rw [hstill n₂ hn₂] at hleaf
    cases hleaf
  · exact hends ⟨n₂ + 1, hended⟩

/-! ## The theorem -/

/-- **What the deadline of a machine bounds.**  An execution of a machine with a deadline, started
in whatever simulator and polled for as long as it has not ended, whatever else happens and in
whatever order, ends exactly when it does not spin.  It ends where every cycle of the machine waits
and no time passes while it can move. -/
theorem bounded_by_deadline {before : Simulator} {name : String} {input : Json} {seconds : Nat}
    (hmachine : before.machine? name = some machine) (htimeout : machine.timeout? = some seconds)
    (hstart : before.start name input = .ok (h.sim 0, place)) (hpolls : h.Polls place) :
    (h.Ends place ↔ ¬ h.Spins place) ∧
      (machine.Paced (h.sim 0).engine.services.sleeper → h.MovesAtOnce place → h.Ends place) := by
  refine ⟨ends_iff_not_spins hmachine htimeout hstart hpolls, fun hpaced hatOnce => ?_⟩
  exact ends_of_paced hmachine htimeout hstart hpolls hatOnce hpaced

end History

/-! ### A state that leads to itself -/

/-- A machine that has to end within a second, and whose one state leads to itself. -/
def circling : Machine where
  comment? := none
  startAt := "A"
  states := [("A", .pass ⟨none, .absent, none, .absent, .absent, ⟨some "A", false⟩⟩)]
  timeout? := some 1

/-- A run that goes round the state of `circling`. -/
inductive Circles : Run → Prop
  | entering (payload : Json) : Circles (.entering "A" payload)
  | leaving (payload : Json) : Circles (.leaving "A" ⟨some "A", false, payload⟩)

/-- An execution of `circling` that nobody has cancelled, and that goes round. -/
structure Circling (e : Execution) : Prop where
  machine : e.machine = circling
  active : e.cancelled = false
  phase : e.phase = .created ∨ ∃ run deadline?, e.phase = .running run deadline? ∧ Circles run

namespace Circles

variable {scope : Scope} {move : Run.LeafMove} {item? : Option Nat} {s s' : Situation}
  {run run' : Run} {address : List Nat}

theorem candidates_ne_nil (h : Circles run) (s : Situation) : run.candidates s [] ≠ [] := by
  cases h with
  | entering payload => simp [Run.candidates, Run.leafCandidates, Run.isReady]
  | leaving payload => simp [Run.candidates, Run.leafCandidates, Run.isReady]

theorem panicAt?_eq_none (h : Circles run) (address : List Nat) :
    run.panicAt? address = none := by
  cases h <;> cases address <;> rfl

theorem moveAt (h : Circles run) (hkind : .pass ∈ scope.services.kinds) (hs : s.cancelled = false)
    (hmove : Run.moveAt scope move circling item? s address run = some (s', run')) :
    Circles run' ∧ s'.cancelled = false := by
  cases address with
  | cons index address =>
    obtain ⟨_, _, _, _, _, _, _, _, _, heq, -⟩ := Run.moveAt_cons hmove
    rw [heq] at h
    cases h
  | nil =>
    have hmoves := Run.moves_of_moveLeaf hmove
    cases h with
    | entering payload =>
      cases hmoves with
      | entering h =>
        cases h with
        | cancelled hcancelled => simp [hs] at hcancelled
        | unknown _ hnone => cases hnone
        | refused _ hstate hnot =>
          cases hstate
          exact (hnot hkind).elim
        | begun _ hstate _ hbegin =>
          cases hstate
          cases hbegin
          exact ⟨.leaving payload, hs⟩
    | leaving payload =>
      cases hmoves with
      | leaving h =>
        cases h with
        | cancelled hcancelled => simp [hs] at hcancelled
        | next _ hnext =>
          cases hnext
          exact ⟨.entering payload, hs⟩
        | last _ hlast => cases hlast

theorem isSome_moveAt (h : Circles run) (scope : Scope) (m : Machine) (item? : Option Nat)
    (s : Situation) : (Run.moveAt scope .step m item? s [] run).isSome := by
  cases h with
  | entering payload => rfl
  | leaving payload => rfl

end Circles

namespace Circling

variable {sim sim' : Simulator} {r : Request} {place n : Nat} {e e' : Execution} {w : World}

/-- An execution that goes round does not panic. -/
theorem abort?_eq_none (h : Circling e) (w : World) (address : List Nat) :
    e.abort? w address = none := by
  unfold Execution.abort?
  rcases h.phase with hphase | ⟨run, deadline?, hphase, hcircles⟩
  · rw [hphase]
  · simp [hphase, hcircles.panicAt?_eq_none]

/-- An execution that goes round is created, or can move and does not time out. -/
theorem expire?_eq_none (h : Circling e) (w : World) : e.expire? w = none := by
  unfold Execution.expire?
  split
  · next run deadline hphase =>
    rcases h.phase with hcreated | ⟨run', deadline?, hrunning, hcircles⟩
    · rw [hphase] at hcreated
      cases hcreated
    · rw [hphase] at hrunning
      cases hrunning
      have hready := hcircles.candidates_ne_nil (e.situation w)
      simp [Execution.candidates, hphase, hready]
  · rfl

theorem result? (h : Circling e) : e.result? = none := by
  rcases h.phase with hphase | ⟨run, deadline?, hphase, -⟩
  · rw [Execution.result?, hphase]
  · rw [Execution.result?, hphase]

/-- **An execution that goes round does so after every request**, unless it is cancelled. -/
theorem serve? (h : Circling e) (hkind : .pass ∈ sim.engine.services.kinds)
    (he : sim.engine.executions[place]? = some e) (hr : sim.serve? r = some sim')
    (hcancel : r ≠ .move (.cancel place)) :
    ∃ e', sim'.engine.executions[place]? = some e' ∧ Circling e' := by
  obtain ⟨e', he', hchange⟩ := serve?_execution_of hr he
  refine ⟨e', he', ?_⟩
  cases hleaf : r.leafAt? place with
  | none =>
    have hactive := (cancelled_of_serve? hr he he' hcancel hleaf).trans h.active
    rw [hleaf] at hchange
    cases hchange with
    | same => exact h
    | started hstart =>
      obtain ⟨-, started, rfl⟩ := Execution.start?_eq_some hstart
      refine ⟨h.machine, hactive, .inr ⟨_, _, rfl, ?_⟩⟩
      rw [h.machine]
      exact .entering _
    | aborted habort =>
      rw [h.abort?_eq_none] at habort
      cases habort
    | expired hexpire =>
      rw [h.expire?_eq_none] at hexpire
      cases hexpire
    | cancelled => cases hactive
  | some leaf =>
    rw [hleaf] at hchange
    cases hchange with
    | moved hmove =>
      obtain ⟨run, deadline?, s, run', hphase, hmoved, -, rfl⟩ := Execution.moveAt?_eq_some hmove
      rcases h.phase with hcreated | ⟨_, _, hrunning, hcircles⟩
      · rw [hphase] at hcreated
        cases hcreated
      · rw [hphase] at hrunning
        cases hrunning
        rw [h.machine] at hmoved
        obtain ⟨hcircles', hs⟩ := hcircles.moveAt hkind h.active hmoved
        rcases Execution.withRun_cases (e.inSituation s) deadline? run' with
          ⟨result, rfl, -⟩ | ⟨-, heq⟩
        · cases hcircles'
        · rw [heq]
          exact ⟨h.machine, hs, .inr ⟨run', deadline?, rfl, hcircles'⟩⟩

/-- An execution that goes round does so after every session in which it is not cancelled. -/
theorem after? (h : Circling e) (hkind : .pass ∈ sim.engine.services.kinds)
    (he : sim.engine.executions[place]? = some e) {rs : List Request}
    (hrs : sim.after? rs = some sim') (hcancel : ∀ r ∈ rs, r ≠ .move (.cancel place)) :
    ∃ e', sim'.engine.executions[place]? = some e' ∧ Circling e' := by
  induction rs generalizing sim e with
  | nil =>
    obtain rfl : sim = sim' := Option.some.inj hrs
    exact ⟨e, he, h⟩
  | cons r rs ih =>
    obtain ⟨sim₁, hr, hrs⟩ := Option.bind_eq_some_iff.mp hrs
    obtain ⟨hne, hcancel⟩ := List.forall_mem_cons.mp hcancel
    obtain ⟨e₁, he₁, h₁⟩ := h.serve? hkind he hr hne
    rw [← serve?_services hr] at hkind
    exact ih h₁ hkind he₁ hrs hcancel

end Circling

theorem violations_circling : circling.violations = [] := by decide +kernel

/-- The standard services, without any functions. -/
def noFunctions : Services := .standard .none fun _ => none

/-- A simulator that knows `circling`. -/
def knowingCircling : Simulator := ⟨[("m", circling)], Engine.initial noFunctions default⟩

/-- A simulator in which an execution of `circling` was started. -/
def startedCircling : Simulator :=
  { knowingCircling with engine := (knowingCircling.engine.launch "m" circling .null).1 }

theorem after?_startedCircling :
    (initial noFunctions default).after? [.register "m" circling, .start "m" .null] =
      some startedCircling := by
  simp only [after?, serve?, register, violations_circling, Option.bind_some]
  rfl

theorem exists_startedCircling :
    ∃ e, startedCircling.engine.executions[0]? = some e ∧ Circling e ∧ e.phase = .created :=
  ⟨_, rfl, ⟨rfl, rfl, .inl rfl⟩, rfl⟩

/-- **A deadline does not end an execution that never has to wait.**  The machine is valid and has
to end within a second; no functions are called, and nobody cancels the execution.  Whatever happens
and in whatever order, it does not end. -/
theorem result?_circling :
    circling.violations = [] ∧ circling.timeout? = some 1 ∧
    ∃ sim₀, (initial noFunctions default).after? [.register "m" circling, .start "m" .null] =
        some sim₀ ∧
      ∀ rs sim, sim₀.after? rs = some sim → (∀ r ∈ rs, r ≠ .move (.cancel 0)) →
        ∃ e, sim.engine.executions[0]? = some e ∧ e.machine = circling ∧ e.result? = none := by
  refine ⟨violations_circling, rfl, startedCircling, after?_startedCircling,
    fun rs sim hrs hcancel => ?_⟩
  obtain ⟨e, he, hcircling, -⟩ := exists_startedCircling
  obtain ⟨e', he', hcircling'⟩ := hcircling.after? (by decide) he hrs hcancel
  exact ⟨e', he', hcircling'.machine, hcircling'.result?⟩

/-! ### Going round and round -/

/-- First the start, then step after step. -/
def roundAndRound : Nat → Request
  | 0 => .move (.start 0)
  | _ + 1 => .move (.leaf 0 .step [])

/-- What this leads to. -/
def circlingAt : Nat → Simulator
  | 0 => startedCircling
  | n + 1 => ((circlingAt n).serve? (roundAndRound n)).getD (circlingAt n)

/-- At a moment, the execution goes round and has taken its first step unless it is the first. -/
structure GoesRound (sim : Simulator) (n : Nat) (e : Execution) : Prop where
  kinds : .pass ∈ sim.engine.services.kinds
  here : sim.engine.executions[0]? = some e
  circling : Circling e
  phase : n = 0 ∧ e.phase = .created ∨
    0 < n ∧ ∃ run deadline?, e.phase = .running run deadline? ∧ Circles run

theorem GoesRound.serve? {sim : Simulator} {n : Nat} {e : Execution} (h : GoesRound sim n e) :
    ∃ sim', sim.serve? (roundAndRound n) = some sim' ∧ ∃ e', GoesRound sim' (n + 1) e' := by
  have hserve : ∃ sim', sim.serve? (roundAndRound n) = some sim' ∧
      ∃ e', sim'.engine.executions[0]? = some e' ∧ e'.phase ≠ .created := by
    have hlt : 0 < sim.engine.executions.length := (List.getElem?_eq_some_iff.mp h.here).1
    rcases h.phase with ⟨rfl, hphase⟩ | ⟨hpos, run, deadline?, hphase, hcircles⟩
    · obtain ⟨e', hstart, hphase'⟩ := e.exists_start? hphase sim.engine.world
      refine ⟨{ sim with engine := { sim.engine with
        executions := sim.engine.executions.set 0 e' } }, ?_, e', List.getElem?_set_self hlt,
        hphase'⟩
      simp [roundAndRound, Simulator.serve?, Engine.move, Engine.update?, h.here, hstart]
    · obtain ⟨k, rfl⟩ := Nat.exists_eq_succ_of_ne_zero (Nat.ne_of_gt hpos)
      obtain ⟨⟨s, run'⟩, hmoved⟩ := Option.isSome_iff_exists.mp (hcircles.isSome_moveAt
        ⟨sim.engine.services, e.identity⟩ e.machine none (e.situation sim.engine.world))
      refine ⟨{ sim with engine := { sim.engine with
        world := s.world
        executions := sim.engine.executions.set 0 ((e.inSituation s).withRun deadline? run') } },
        ?_, _, List.getElem?_set_self hlt, ?_⟩
      · simp [roundAndRound, Simulator.serve?, Engine.move, Engine.update?, h.here,
          Execution.moveAt?, hphase, hmoved]
      · rcases Execution.withRun_cases (e.inSituation s) deadline? run' with
          ⟨result, -, heq⟩ | ⟨-, heq⟩
        · simp [heq, Execution.finish]
        · simp [heq]
  obtain ⟨sim', hr, e', he', hphase⟩ := hserve
  have hcancel : roundAndRound n ≠ .move (.cancel 0) := by cases n <;> simp [roundAndRound]
  obtain ⟨e₁, he₁, hcircling⟩ := h.circling.serve? h.kinds h.here hr hcancel
  obtain rfl : e' = e₁ := Option.some.inj (he'.symm.trans he₁)
  refine ⟨sim', hr, e', ?_, he', hcircling, .inr ⟨Nat.succ_pos n, ?_⟩⟩
  · rw [serve?_services hr]
    exact h.kinds
  · exact hcircling.phase.resolve_left hphase

theorem goesRound_circlingAt (n : Nat) : ∃ e, GoesRound (circlingAt n) n e := by
  induction n with
  | zero =>
    obtain ⟨e, he, hcircling, hphase⟩ := exists_startedCircling
    exact ⟨e, by decide, he, hcircling, .inl ⟨rfl, hphase⟩⟩
  | succ n ih =>
    obtain ⟨e, h⟩ := ih
    obtain ⟨sim', hr, e', h'⟩ := h.serve?
    refine ⟨e', ?_⟩
    rw [circlingAt, hr]
    exact h'

/-- The history of an execution that goes round and round. -/
def circlingHistory : History where
  sim := circlingAt
  request := roundAndRound
  serves n := by
    obtain ⟨e, h⟩ := goesRound_circlingAt n
    obtain ⟨sim', hr, -⟩ := h.serve?
    rw [circlingAt, hr]
    rfl

theorem isReady_circlingHistory {n : Nat} (hn : 0 < n) : circlingHistory.IsReady 0 n := by
  obtain ⟨e, h⟩ := goesRound_circlingAt n
  rcases h.phase with ⟨rfl, -⟩ | ⟨-, run, deadline?, hphase, hcircles⟩
  · cases hn
  · refine ⟨e, h.here, ?_⟩
    rw [Execution.candidates, hphase]
    exact hcircles.candidates_ne_nil _

theorem polls_circlingHistory : circlingHistory.Polls 0 where
  starts := ⟨0, rfl⟩
  goesOn n _ := ⟨n + 1, Nat.le_succ n, .inl rfl⟩
  timesOut n hexpires := by
    obtain ⟨e, h⟩ := goesRound_circlingAt n
    obtain ⟨engine, hmove⟩ := Option.isSome_iff_exists.mp hexpires
    obtain ⟨e', w, e₁, he', hexpire, -⟩ := Engine.update?_eq_some hmove
    obtain rfl : e = e' := Option.some.inj (h.here.symm.trans he')
    rw [h.circling.expire?_eq_none] at hexpire
    cases hexpire
  timePasses n hresting := by
    obtain ⟨e, run, deadline?, he, hphase, hnil⟩ := hresting
    obtain ⟨e', h⟩ := goesRound_circlingAt n
    obtain rfl : e = e' := Option.some.inj (he.symm.trans h.here)
    rcases h.phase with ⟨-, hcreated⟩ | ⟨hpos, -⟩
    · rw [hcreated] at hphase
      cases hphase
    · obtain ⟨e₁, he₁, hready⟩ := isReady_circlingHistory hpos
      obtain rfl : e = e₁ := Option.some.inj (he.symm.trans he₁)
      exact (hready hnil).elim

/-! ### A state that waits and leads to itself -/

/-- A machine that has to end within a second, and whose one state waits for a second and leads to
itself. -/
def pacing : Machine where
  comment? := none
  startAt := "A"
  states := [("A",
    .wait ⟨none, some 1, none, none, none, .absent, .absent, ⟨some "A", false⟩⟩)]
  timeout? := some 1

/-- Its cycle waits. -/
theorem paced_pacing : pacing.Paced .timer := by
  have hlevel : ∀ l, pacing.HasLevel l → l = pacing := by
    intro l hl
    induction hl with
    | self => rfl
    | inside _ hs _ ih =>
      subst ih
      simp [pacing] at hs
  intro l hl name hcycle
  obtain rfl := hlevel l hl
  obtain ⟨next, ⟨state, hstate, hnot, -⟩, -⟩ := Relation.TransGen.head'_iff.mp hcycle
  obtain ⟨-, rfl⟩ : "A" = name ∧ _ = state := by
    simpa [Machine.state?, pacing, Entries.get?] using hstate
  exact hnot (State.pauses_timer _)

/-- A simulator that knows `pacing`. -/
def knowingPacing : Simulator := ⟨[("m", pacing)], Engine.initial noFunctions default⟩

/-- A simulator in which an execution of `pacing` was started. -/
def startedPacing : Simulator :=
  { knowingPacing with engine := (knowingPacing.engine.launch "m" pacing .null).1 }

/-- The state is entered, left after a second and entered again.  Then the deadline has come. -/
def pacingSession : List Request :=
  [.move (.start 0), .move (.leaf 0 .step []), .move (.wait 1000), .move (.leaf 0 .step []),
    .move (.leaf 0 .step []), .move (.leaf 0 .step []), .move (.expire 0), .move (.wait 2000)]

/-- The history of an execution that waits in a circle. -/
def pacingHistory : History := .ofSession startedPacing pacingSession (by decide +kernel)

theorem le_of_isReady_pacingHistory {n : Nat} (h : pacingHistory.IsReady 0 n) : n ≤ 5 := by
  have hsession : ∀ n < 8, pacingHistory.IsReady 0 n → n ≤ 5 := by decide +kernel
  exact hsession n (h.lt_length (by decide +kernel)) h

theorem eq_of_isResting_pacingHistory {n : Nat} (h : pacingHistory.IsResting 0 n) :
    n = 2 ∨ n = 6 := by
  have hsession : ∀ n < 8, pacingHistory.IsResting 0 n → n = 2 ∨ n = 6 := by decide +kernel
  exact hsession n (h.lt_length (by decide +kernel)) h

theorem eq_of_expires_pacingHistory {n : Nat}
    (h : ((pacingHistory.sim n).engine.move (.expire 0)).isSome) : n = 6 := by
  have hsession : ∀ n < 8, ((pacingHistory.sim n).engine.move (.expire 0)).isSome → n = 6 := by
    decide +kernel
  exact hsession n (History.ofSession_lt
    (P := fun sim => (sim.engine.move (.expire 0)).isSome) (by decide +kernel) h) h

theorem polls_pacingHistory : pacingHistory.Polls 0 where
  starts := ⟨0, rfl⟩
  goesOn n hready := ⟨5, le_of_isReady_pacingHistory hready, .inl rfl⟩
  timesOut n hexpires := by
    obtain rfl := eq_of_expires_pacingHistory hexpires
    rfl
  timePasses n hresting := by
    rcases eq_of_isResting_pacingHistory hresting with rfl | rfl
    · exact ⟨3, by decide, by decide +kernel⟩
    · exact ⟨8, by decide, by decide +kernel⟩

theorem movesAtOnce_pacingHistory : pacingHistory.MovesAtOnce 0 := by
  have hsession : ∀ n < 6, pacingHistory.IsReady 0 n →
      pacingHistory.clock (n + 1) = pacingHistory.clock n := by decide +kernel
  intro n hready
  exact hsession n (Nat.lt_succ_of_le (le_of_isReady_pacingHistory hready)) hready

/-- Of two executions of machines whose one state leads to itself, the one that never waits spins,
and so it does not end; the other one waits and ends. -/
theorem History.bounded_by_deadline_cycles :
    (knowingCircling.machine? "m" = some circling ∧ circling.timeout? = some 1 ∧
      knowingCircling.start "m" .null = .ok (circlingHistory.sim 0, 0) ∧ circlingHistory.Polls 0 ∧
      circlingHistory.Spins 0 ∧ ¬ circlingHistory.Ends 0) ∧
    knowingPacing.machine? "m" = some pacing ∧ pacing.timeout? = some 1 ∧
      knowingPacing.start "m" .null = .ok (pacingHistory.sim 0, 0) ∧ pacingHistory.Polls 0 ∧
      pacing.Paced (pacingHistory.sim 0).engine.services.sleeper ∧
      pacingHistory.MovesAtOnce 0 ∧ pacingHistory.Ends 0 := by
  have hmachine : knowingCircling.machine? "m" = some circling := rfl
  have hstart : knowingCircling.start "m" .null = .ok (circlingHistory.sim 0, 0) := rfl
  have hspins : circlingHistory.Spins 0 := by
    refine ⟨1, fun n hn => ⟨isReady_circlingHistory hn, ?_⟩⟩
    obtain ⟨e, h⟩ := goesRound_circlingAt n
    exact History.exists_enters polls_circlingHistory
      (fun n' hn' => isReady_circlingHistory (Nat.le_trans hn hn')) h.here
  have hmachine' : knowingPacing.machine? "m" = some pacing := rfl
  have hstart' : knowingPacing.start "m" .null = .ok (pacingHistory.sim 0, 0) := rfl
  refine ⟨⟨hmachine, rfl, hstart, polls_circlingHistory, hspins, fun hends => ?_⟩, hmachine', rfl,
    hstart', polls_pacingHistory, paced_pacing, movesAtOnce_pacingHistory, ?_⟩
  · exact (History.bounded_by_deadline hmachine rfl hstart polls_circlingHistory).1.mp hends hspins
  · exact (History.bounded_by_deadline hmachine' rfl hstart' polls_pacingHistory).2 paced_pacing
      movesAtOnce_pacingHistory

end Simulator

end StateFlow
