import Mathlib.Data.Nat.Init
import StateFlow.Proofs.Execution.Leeway
import StateFlow.Proofs.Execution.Reporting
import StateFlow.Proofs.Simulator.Session

/-!
# Histories of a simulator

A session is a list of requests and ends with the last of them.  A history never ends: requests
follow one another forever, and of what happens in the long run only a history can tell.  Each of
its moments is that of a session, so whatever a request keeps is kept from one moment to all later
ones.

## Main definitions

* `Simulator.History`: all that ever happens in a simulator, request by request
* `Simulator.History.ofSession`: a session, and after it nothing more
* `Simulator.History.IsRunning`: an execution is running
* `Simulator.History.IsReady`, `Simulator.History.IsResting`: a leaf of an execution can move, or
  none
* `Simulator.History.MovesAtOnce`: no time passes while a leaf of an execution can move
* `Simulator.History.Polls`: an execution is not given up, and its deadline is looked at
* `Simulator.History.Ends`, `Simulator.History.Spins`: an execution ends, or enters states forever

## Main results

* `Execution.Change.keepsDeadline`: an execution keeps its deadline until it has finished
* `Engine.clock_le_of_move`: time never goes back
* `Engine.cancelled_of_move`: who cancels an execution
* `Simulator.History.kept_of_le`: what an execution keeps through every change
* `Simulator.History.not_isReady_of_result?`: what has ended never moves again
-/

namespace StateFlow

/-! ## What moves do to an execution -/

namespace Execution

variable {e e' : Execution} {services : Services} {w : World} {run : Run} {deadline? : Option Nat}
  {leaf? : Option (Run.LeafMove × List Nat)}

/-- An execution keeps its deadline until it has finished. -/
theorem Change.keepsDeadline (h : e.Change services w leaf? e')
    (hphase : e.phase = .running run deadline?) :
    (∃ run', e'.phase = .running run' deadline?) ∨ e'.result?.isSome := by
  cases h with
  | same => exact .inl ⟨run, hphase⟩
  | started h =>
    have hcreated := (start?_eq_some h).1
    rw [hphase] at hcreated
    cases hcreated
  | moved h =>
    obtain ⟨_, _, s, run', hrunning, -, -, rfl⟩ := moveAt?_eq_some h
    rw [hphase] at hrunning
    cases hrunning
    rcases withRun_cases (e.inSituation s) deadline? run' with ⟨result, -, heq⟩ | ⟨-, heq⟩
    · rw [heq]
      exact .inr rfl
    · rw [heq]
      exact .inl ⟨run', rfl⟩
  | aborted h =>
    obtain ⟨_, _, _, -, -, -, rfl⟩ := abort?_eq_some h
    exact .inr rfl
  | expired h =>
    obtain ⟨_, _, -, -, rfl⟩ := expire?_eq_some h
    exact .inr rfl
  | cancelled => exact .inl ⟨run, hphase⟩

/-- Only the leaves of an execution that is running can move. -/
theorem exists_running_of_candidates (h : e.candidates w ≠ []) :
    ∃ run deadline?, e.phase = .running run deadline? := by
  unfold candidates at h
  split at h
  · next run deadline? hphase => exact ⟨run, deadline?, hphase⟩
  · exact (h rfl).elim

end Execution

namespace Engine

variable {engine engine' : Engine} {m : Move} {place : Nat} {e : Execution} {run : Run}
  {deadline : Nat}

/-- Time never goes back. -/
theorem clock_le_of_move (h : engine.move m = some engine') :
    engine.world.clock ≤ engine'.world.clock := by
  cases moves_of_move h with
  | leaf _ hmove =>
    obtain ⟨_, _, s, _, -, hmoved, rfl, -⟩ := Execution.moveAt?_eq_some hmove
    exact Nat.le_of_eq (Run.moveAt_clock hmoved).symm
  | abort _ habort =>
    obtain ⟨_, _, _, -, -, rfl, -⟩ := Execution.abort?_eq_some habort
    exact Nat.le_refl _
  | expire _ hexpire =>
    obtain ⟨_, _, -, rfl⟩ := Execution.expire?_world hexpire
    exact Nat.le_refl _
  | wait hle => exact hle
  | start | cancel | report | settle => exact Nat.le_refl _

theorem cancelled_of_set {other : Nat} {e₀ e₁ e' : Execution}
    (he₀ : engine.executions[other]? = some e₀) (he : engine.executions[place]? = some e)
    (he' : (engine.executions.set other e₁)[place]? = some e')
    (h : other = place → e₁.cancelled = e₀.cancelled) : e'.cancelled = e.cancelled := by
  by_cases hplace : other = place
  · subst hplace
    obtain rfl : e = e₀ := Option.some.inj (he.symm.trans he₀)
    have hlt : other < engine.executions.length := (List.getElem?_eq_some_iff.mp he).1
    obtain rfl : e₁ = e' := by simpa [List.getElem?_set, hlt] using he'
    exact h rfl
  · rw [List.getElem?_set_ne hplace] at he'
    obtain rfl : e = e' := Option.some.inj (he.symm.trans he')
    rfl

/-- An execution is cancelled from outside or by a move of its own. -/
theorem cancelled_of_move {e' : Execution} (h : engine.move m = some engine')
    (he : engine.executions[place]? = some e) (he' : engine'.executions[place]? = some e')
    (hcancel : m ≠ .cancel place) (hleaf : m.leafAt? place = none) :
    e'.cancelled = e.cancelled := by
  cases moves_of_move h with
  | start he₀ hstart =>
    refine cancelled_of_set he₀ he he' fun _ => ?_
    obtain ⟨-, started, rfl⟩ := Execution.start?_eq_some hstart
    rfl
  | leaf he₀ =>
    refine cancelled_of_set he₀ he he' fun hplace => ?_
    rw [Move.leafAt?, if_pos hplace] at hleaf
    cases hleaf
  | abort he₀ habort =>
    refine cancelled_of_set he₀ he he' fun _ => ?_
    obtain ⟨_, _, _, -, -, -, rfl⟩ := Execution.abort?_eq_some habort
    rfl
  | expire he₀ hexpire =>
    refine cancelled_of_set he₀ he he' fun _ => ?_
    obtain ⟨_, _, -, -, rfl⟩ := Execution.expire?_eq_some hexpire
    rfl
  | cancel he₀ =>
    exact cancelled_of_set he₀ he he' fun hplace => (hcancel (congrArg _ hplace)).elim
  | report | wait | settle => exact congrArg _ (Option.some.inj (he'.symm.trans he))

/-- The first step of an execution sets its deadline. -/
theorem running_of_start (h : engine.move (.start place) = some engine')
    (he : engine.executions[place]? = some e) :
    ∃ e' run, engine'.executions[place]? = some e' ∧ e'.machine = e.machine ∧
      e'.phase = .running run (e.machine.timeout?.map engine.world.deadlineAfter) := by
  have hlt : place < engine.executions.length := (List.getElem?_eq_some_iff.mp he).1
  cases moves_of_move h with
  | @start _ e₀ _ he₀ hstart =>
    obtain rfl : e = e₀ := Option.some.inj (he.symm.trans he₀)
    obtain ⟨-, started, rfl⟩ := Execution.start?_eq_some hstart
    exact ⟨_, .start e.machine e.identity.input, List.getElem?_set_self hlt, rfl, rfl⟩

/-- An execution times out once its deadline has come and none of its leaves can move. -/
theorem isSome_move_expire (he : engine.executions[place]? = some e)
    (hphase : e.phase = .running run (some deadline)) (hdue : deadline ≤ engine.world.clock)
    (hrests : e.candidates engine.world = []) : (engine.move (.expire place)).isSome := by
  simp [move, update?, he, Execution.expire?, hphase, hdue, hrests]

/-- An execution that times out has ended. -/
theorem isSome_result?_of_expire (h : engine.move (.expire place) = some engine') :
    (engine'.result? place).isSome := by
  cases moves_of_move h with
  | expire he hexpire =>
    obtain ⟨_, _, -, -, rfl⟩ := Execution.expire?_eq_some hexpire
    have hlt : place < engine.executions.length := (List.getElem?_eq_some_iff.mp he).1
    simp [result?, hlt, Execution.result?_finish]

/-- An execution that is aborted has ended. -/
theorem isSome_result?_of_abort {address : List Nat}
    (h : engine.move (.abort place address) = some engine') :
    (engine'.result? place).isSome := by
  cases moves_of_move h with
  | abort he habort =>
    obtain ⟨_, _, _, -, -, -, rfl⟩ := Execution.abort?_eq_some habort
    have hlt : place < engine.executions.length := (List.getElem?_eq_some_iff.mp he).1
    simp [result?, hlt, Execution.result?]

end Engine

namespace Simulator

/-- An execution is cancelled from outside or by a move of its own. -/
theorem cancelled_of_serve? {sim sim' : Simulator} {r : Request} {place : Nat} {e e' : Execution}
    (hr : sim.serve? r = some sim') (he : sim.engine.executions[place]? = some e)
    (he' : sim'.engine.executions[place]? = some e') (hcancel : r ≠ .move (.cancel place))
    (hleaf : r.leafAt? place = none) : e'.cancelled = e.cancelled := by
  rcases serve?_cases hr with ⟨rfl, -⟩ | ⟨_, _, -, -, rfl⟩ | ⟨_, _, _, -, -, rfl⟩ |
    ⟨move, engine, rfl, hmove, rfl⟩
  · rw [he] at he'
    rw [Option.some.inj he']
  · have hsame : e = e' := Option.some.inj (he.symm.trans he')
    rw [hsame]
  · have hlt : place < sim.engine.executions.length := (List.getElem?_eq_some_iff.mp he).1
    simp only [Engine.launch] at he'
    rw [List.getElem?_append_left hlt, he] at he'
    rw [Option.some.inj he']
  · exact Engine.cancelled_of_move hmove he he' (fun heq => hcancel (congrArg _ heq)) hleaf

/-! ## Histories -/

/-- All that ever happens in a simulator: requests without end, and what each leads to. -/
structure History where
  sim : Nat → Simulator
  request : Nat → Request
  serves : ∀ n, (sim n).serve? (request n) = some (sim (n + 1))

/-- A machine without states, which every simulator refuses. -/
def Request.idle : Request := .register "" ⟨none, "", [], none⟩

theorem serve?_idle (sim : Simulator) : sim.serve? .idle = some sim := rfl

namespace History

/-- A session, and after it nothing more. -/
def ofSession (sim : Simulator) (rs : List Request) (h : (sim.after? rs).isSome) : History where
  sim n := (sim.after? (rs.take n)).getD sim
  request n := rs[n]?.getD .idle
  serves n := by
    by_cases hn : n < rs.length
    · have hsome : (sim.after? (rs.take (n + 1))).isSome := by
        rw [← List.take_append_drop (n + 1) rs, after?_append] at h
        exact Option.isSome_of_isSome_bind h
      rw [List.take_succ_eq_append_getElem hn, after?_append] at hsome ⊢
      obtain ⟨s, hs⟩ := Option.isSome_iff_exists.mp (Option.isSome_of_isSome_bind hsome)
      obtain ⟨s', hs'⟩ := Option.isSome_iff_exists.mp hsome
      rw [hs] at hs' ⊢
      obtain ⟨s₁, hserve, rfl⟩ : ∃ s₁, s.serve? rs[n] = some s₁ ∧ s₁ = s' := by
        simpa [after?] using hs'
      simp [after?, hserve, hn]
    · have hle : rs.length ≤ n := Nat.le_of_not_lt hn
      rw [List.take_of_length_le hle, List.take_of_length_le (Nat.le_succ_of_le hle),
        List.getElem?_eq_none hle]
      exact serve?_idle _

/-- Nothing happens after the session. -/
theorem ofSession_sim_of_le {sim : Simulator} {rs : List Request} (h : (sim.after? rs).isSome)
    {n : Nat} (hn : rs.length ≤ n) :
    (ofSession sim rs h).sim n = (ofSession sim rs h).sim rs.length := by
  simp [ofSession, List.take_of_length_le hn]

/-- What does not hold after the session holds during it only. -/
theorem ofSession_lt {sim : Simulator} {rs : List Request} {h : (sim.after? rs).isSome}
    {P : Simulator → Prop} (hafter : ¬ P ((ofSession sim rs h).sim rs.length)) {n : Nat}
    (hn : P ((ofSession sim rs h).sim n)) : n < rs.length := by
  by_contra hge
  rw [ofSession_sim_of_le h (Nat.le_of_not_lt hge)] at hn
  exact hafter hn

variable (h : History) (place n : Nat)

/-- The execution at a place, at a moment. -/
def execution? : Option Execution := (h.sim n).engine.executions[place]?

/-- What the clock shows at a moment. -/
def clock : Nat := (h.sim n).engine.world.clock

/-- The execution at a place is running. -/
def IsRunning : Prop :=
  ∃ e run deadline?, h.execution? place n = some e ∧ e.phase = .running run deadline?

/-- A leaf of the execution at a place can move or panics. -/
def IsReady : Prop :=
  ∃ e, h.execution? place n = some e ∧ e.candidates (h.sim n).engine.world ≠ []

/-- The execution at a place is running, and none of its leaves can move. -/
def IsResting : Prop :=
  ∃ e run deadline?, h.execution? place n = some e ∧ e.phase = .running run deadline? ∧
    e.candidates (h.sim n).engine.world = []

instance : Decidable (h.IsReady place n) :=
  decidable_of_iff ((h.execution? place n).any fun e =>
    !(e.candidates (h.sim n).engine.world).isEmpty) (by simp [IsReady, Option.any_eq_true])

instance : Decidable (h.IsResting place n) :=
  decidable_of_iff ((h.execution? place n).any fun e =>
    match e.phase with
    | .running _ _ => (e.candidates (h.sim n).engine.world).isEmpty
    | _ => false) (by
      simp only [IsResting, Option.any_eq_true]
      constructor
      · rintro ⟨e, he, hrests⟩
        split at hrests
        · next run deadline? hphase =>
          exact ⟨e, run, deadline?, he, hphase, List.isEmpty_iff.mp hrests⟩
        · cases hrests
      · rintro ⟨e, run, deadline?, he, hphase, hnil⟩
        exact ⟨e, he, by simp [hphase, hnil]⟩)

/-- What is ready at no moment after a session is ready during it only. -/
theorem IsReady.lt_length {sim : Simulator} {rs : List Request} {h : (sim.after? rs).isSome}
    {place n : Nat} (hready : (ofSession sim rs h).IsReady place n)
    (hafter : ¬ (ofSession sim rs h).IsReady place rs.length) : n < rs.length :=
  ofSession_lt (P := fun sim => ∃ e : Execution, sim.engine.executions[place]? = some e ∧
    e.candidates sim.engine.world ≠ []) hafter hready

/-- What rests at no moment after a session rests during it only. -/
theorem IsResting.lt_length {sim : Simulator} {rs : List Request} {h : (sim.after? rs).isSome}
    {place n : Nat} (hresting : (ofSession sim rs h).IsResting place n)
    (hafter : ¬ (ofSession sim rs h).IsResting place rs.length) : n < rs.length :=
  ofSession_lt (P := fun sim => ∃ (e : Execution) (run : Run) (deadline? : Option Nat),
    sim.engine.executions[place]? = some e ∧ e.phase = .running run deadline? ∧
      e.candidates sim.engine.world = []) hafter hresting

/-- The execution at a place enters a state, and tells so. -/
def Enters : Prop :=
  ∃ e e', h.execution? place n = some e ∧ h.execution? place (n + 1) = some e' ∧
    EntersState e.events e'.events

/-- The execution at a place is polled for as long as it has not ended.  Nothing is asked of what
happens besides, of the order in which its leaves move, or of what comes between two moves. -/
structure Polls : Prop where
  starts : ∃ n, h.request n = .move (.start place)
  /-- Where a leaf can move or panics, one does so some time. -/
  goesOn : ∀ n, h.IsReady place n → ∃ n' ≥ n, ((h.request n').leafAt? place).isSome ∨
    ∃ address, h.request n' = .move (.abort place address)
  /-- Where no leaf can move, the deadline is looked at. -/
  timesOut : ∀ n, ((h.sim n).engine.move (.expire place)).isSome →
    h.request n = .move (.expire place)
  /-- Time goes on while it rests. -/
  timePasses : ∀ n, h.IsResting place n → ∃ n' ≥ n, h.clock n < h.clock n'

/-- No time passes while a leaf of the execution at a place can move. -/
def MovesAtOnce : Prop := ∀ n, h.IsReady place n → h.clock (n + 1) = h.clock n

/-- The execution at a place ends. -/
def Ends : Prop := ∃ n, ((h.sim n).engine.result? place).isSome

/-- From some moment on a leaf of the execution at a place can always move, and it enters states
again and again. -/
def Spins : Prop := ∃ n, ∀ n' ≥ n, h.IsReady place n' ∧ ∃ k ≥ n', h.Enters place k

variable {h : History} {place n n' : Nat} {e e' : Execution} {machine : Machine}

theorem IsReady.isRunning (hready : h.IsReady place n) : h.IsRunning place n := by
  obtain ⟨e, he, hcandidates⟩ := hready
  obtain ⟨run, deadline?, hphase⟩ := Execution.exists_running_of_candidates hcandidates
  exact ⟨e, run, deadline?, he, hphase⟩

/-- An execution that is running is ready or rests. -/
theorem IsRunning.isResting (hrunning : h.IsRunning place n) (hready : ¬ h.IsReady place n) :
    h.IsResting place n := by
  obtain ⟨e, run, deadline?, he, hphase⟩ := hrunning
  exact ⟨e, run, deadline?, he, hphase, by_contra fun hne => hready ⟨e, he, hne⟩⟩

/-! ### From moment to moment -/

theorem execution?_succ (he : h.execution? place n = some e) :
    ∃ e', h.execution? place (n + 1) = some e' ∧
      e.Change (h.sim n).engine.services (h.sim n).engine.world ((h.request n).leafAt? place) e' :=
  serve?_execution_of (h.serves n) he

/-- **What an execution keeps through every change, it keeps from a moment on.** -/
theorem kept_of_le {P : Execution → Prop}
    (hP : ∀ (e e' : Execution) services w leaf?, e.Change services w leaf? e' → P e → P e')
    (he : h.execution? place n = some e) (hkept : P e) (hle : n ≤ n') :
    ∃ e', h.execution? place n' = some e' ∧ P e' := by
  induction n', hle using Nat.le_induction with
  | base => exact ⟨e, he, hkept⟩
  | succ n' _ ih =>
    obtain ⟨e₁, he₁, hkept₁⟩ := ih
    obtain ⟨e₂, he₂, hchange⟩ := execution?_succ he₁
    exact ⟨e₂, he₂, hP e₁ e₂ _ _ _ hchange hkept₁⟩

/-- An execution keeps its place and its machine. -/
theorem execution?_of_le (he : h.execution? place n = some e) (hle : n ≤ n') :
    ∃ e', h.execution? place n' = some e' ∧ e'.machine = e.machine :=
  kept_of_le (fun _ _ _ _ _ hchange hmachine => hchange.fixed.1.trans hmachine) he rfl hle

theorem clock_le_of_le (hle : n ≤ n') : h.clock n ≤ h.clock n' := by
  induction n', hle using Nat.le_induction with
  | base => exact Nat.le_refl _
  | succ n' _ ih =>
    apply Nat.le_trans ih
    rcases serve?_cases (h.serves n') with ⟨heq, -⟩ | ⟨_, _, -, -, heq⟩ | ⟨_, _, _, -, -, heq⟩ |
      ⟨_, engine, -, hmove, heq⟩
    · exact Nat.le_of_eq (by rw [clock, clock, heq])
    · exact Nat.le_of_eq (by rw [clock, clock, heq])
    · exact Nat.le_of_eq (by rw [clock, clock, heq]; rfl)
    · rw [clock, clock, heq]
      exact Engine.clock_le_of_move hmove

/-- What has ended stays so, and none of its leaves can move. -/
theorem not_isReady_of_result? (hended : ((h.sim n).engine.result? place).isSome) (hle : n ≤ n') :
    ¬ h.IsReady place n' := by
  obtain ⟨result, hresult⟩ := Option.isSome_iff_exists.mp hended
  obtain ⟨e, he, hresult⟩ := Option.bind_eq_some_iff.mp hresult
  obtain ⟨e₁, he₁, hresult₁⟩ := kept_of_le (P := fun e => e.result? = some result)
    (fun _ _ _ _ _ hchange hresult => hchange.result? hresult) he hresult hle
  rintro ⟨e', he', hready⟩
  obtain rfl : e₁ = e' := Option.some.inj (he₁.symm.trans he')
  obtain ⟨run, deadline?, hphase⟩ := Execution.exists_running_of_candidates hready
  rw [Execution.result?_eq_some_iff.mp hresult₁] at hphase
  cases hphase

/-- Where an execution is ready, one of its leaves moves some time or the execution ends. -/
theorem Polls.moves_or_ends (hpolls : h.Polls place) (hready : h.IsReady place n) :
    ∃ n' ≥ n, ((h.request n').leafAt? place).isSome ∨
      ((h.sim (n' + 1)).engine.result? place).isSome := by
  obtain ⟨n', hn', hleaf | ⟨address, habort⟩⟩ := hpolls.goesOn n hready
  · exact ⟨n', hn', .inl hleaf⟩
  · have hserve := h.serves n'
    rw [habort] at hserve
    obtain ⟨engine, hmove, heq⟩ := Option.map_eq_some_iff.mp hserve
    refine ⟨n', hn', .inr ?_⟩
    rw [← heq]
    exact Engine.isSome_result?_of_abort hmove

theorem services_eq (n : Nat) : (h.sim n).engine.services = (h.sim 0).engine.services := by
  induction n with
  | zero => rfl
  | succ n ih => rw [serve?_services (h.serves n), ih]

/-- The frames of an execution keep to its machine for as long as it runs. -/
theorem sound_of_le (hle : n ≤ n') (he : h.execution? place n = some e)
    (hsound : e.Sound fun _ _ => True) (he' : h.execution? place n' = some e') :
    e'.Sound fun _ _ => True := by
  obtain ⟨e₁, he₁, hsound₁⟩ :=
    kept_of_le (fun _ _ _ _ _ hchange => hchange.sound) he hsound hle
  obtain rfl : e₁ = e' := Option.some.inj (he₁.symm.trans he')
  exact hsound₁

end History

end Simulator

end StateFlow
