import StateFlow.Proofs.Execution.Change
import StateFlow.Simulator

/-!
# Sessions with a simulator

A session is a list of requests: machines are registered, executions are started, and the engine
moves.  What a simulator refuses leaves it as it was, and a move must be possible.  Nothing is said
about who chooses the moves, so what holds after every session holds for every order of steps and
for a cancellation at any moment; the scheduler is one of those who may choose
(`Simulator.after?_await`).

## Main definitions

* `Simulator.Request`, `Simulator.serve?`, `Simulator.after?`: requests and what they lead to
* `Simulator.Accepts`: the machines and the executions of a simulator went through validation

## Main results

* `Simulator.session_induction`: what holds at first and is kept by each request holds after all
* `Simulator.serve?_execution`: an execution after a request is a new one or a changed one
* `Simulator.accepts_session`: after every session all machines have gone through validation
-/

namespace StateFlow

namespace Simulator

/-- What is asked of a simulator. -/
inductive Request where
  | register (name : String) (machine : Machine)
  | start (name : String) (input : Json)
  | move (move : Move)
deriving Inhabited

/-- What a request does at a leaf of the execution at a place. -/
def Request.leafAt? (place : Nat) : Request → Option (Run.LeafMove × List Nat)
  | .move m => m.leafAt? place
  | _ => none

theorem Request.leafAt?_eq_some_iff {place : Nat} {r : Request} {leaf : Run.LeafMove × List Nat} :
    r.leafAt? place = some leaf ↔ r = .move (.leaf place leaf.1 leaf.2) := by
  cases r with
  | move move => rw [leafAt?, Move.leafAt?_eq_some_iff, Request.move.injEq]
  | register name machine => exact ⟨nofun, nofun⟩
  | start name input => exact ⟨nofun, nofun⟩

/-- The simulator after a request.  A machine or an execution that is refused changes nothing. -/
def serve? (sim : Simulator) : Request → Option Simulator
  | .register name machine =>
    match sim.register name machine with
    | .ok sim' => some sim'
    | .error _ => some sim
  | .start name input =>
    match sim.start name input with
    | .ok (sim', _) => some sim'
    | .error _ => some sim
  | .move move => (sim.engine.move move).map fun engine => { sim with engine }

/-- The simulator after requests in order, if all moves among them are possible. -/
def after? (sim : Simulator) : List Request → Option Simulator
  | [] => some sim
  | r :: rs => (sim.serve? r).bind (·.after? rs)

variable {sim sim' : Simulator}

theorem after?_append (sim : Simulator) (rs rs' : List Request) :
    sim.after? (rs ++ rs') = (sim.after? rs).bind (·.after? rs') := by
  induction rs generalizing sim with
  | nil => rfl
  | cons r rs ih =>
    rw [List.cons_append, after?, after?, Option.bind_assoc]
    exact congrArg _ (funext ih)

/-- **What holds at first and is kept by every request holds after every session.** -/
theorem session_induction {P : List Request → Simulator → Prop} (hinit : P [] sim)
    (hstep : ∀ rs s r s', sim.after? rs = some s → P rs s → s.serve? r = some s' →
      P (rs ++ [r]) s') (rs : List Request) (h : sim.after? rs = some sim') : P rs sim' := by
  -- the requests are taken from the front, so those already served are carried along
  have haux : ∀ (rest served : List Request) (s : Simulator), sim.after? served = some s →
      P served s → s.after? rest = some sim' → P (served ++ rest) sim' := by
    intro rest
    induction rest with
    | nil =>
      intro served s _ hP hrest
      obtain rfl : s = sim' := Option.some.inj hrest
      rwa [List.append_nil]
    | cons r rest ih =>
      intro served s hserved hP hrest
      obtain ⟨s₁, hr, hrest⟩ := Option.bind_eq_some_iff.mp hrest
      have hserved' : sim.after? (served ++ [r]) = some s₁ := by
        rw [after?_append, hserved]
        simp [after?, hr]
      have := ih (served ++ [r]) s₁ hserved' (hstep served s r s₁ hserved hP hr) hrest
      rwa [List.append_assoc] at this
  exact haux rs [] sim rfl hinit h

end Simulator

/-! ## The scheduler -/

namespace Engine

theorem runUntil_eq_run (stop : Engine → Bool) (time bound : Nat) (engine : Engine) :
    ∃ moves, engine.run moves = some (engine.runUntil stop time bound) := by
  induction bound generalizing engine with
  | zero => exact ⟨[], rfl⟩
  | succ bound ih =>
    rw [runUntil]
    split
    · exact ⟨[], rfl⟩
    · split
      · next engine' h =>
        obtain ⟨move, -, hmove⟩ := Option.bind_eq_some_iff.mp h
        obtain ⟨moves, hmoves⟩ := ih engine'
        exact ⟨move :: moves, by rw [run, hmove]; exact hmoves⟩
      · exact ⟨[], rfl⟩

end Engine

namespace Simulator

theorem after?_moves (sim : Simulator) (moves : List Move) :
    sim.after? (moves.map .move) =
      (sim.engine.run moves).map fun engine => { sim with engine } := by
  induction moves generalizing sim with
  | nil => rfl
  | cons move moves ih =>
    rw [List.map_cons, after?, serve?, Engine.run]
    cases sim.engine.move move with
    | none => rfl
    | some engine => exact ih { sim with engine }

/-- What the scheduler does while an execution is waited for is part of a session. -/
theorem after?_await (sim : Simulator) (execution : Nat) :
    ∃ rs, sim.after? rs = some (sim.await execution) := by
  obtain ⟨moves, hmoves⟩ := Engine.runUntil_eq_run
    (fun engine => (engine.result? execution).isSome)
    (sim.engine.world.clock + Engine.patience) Engine.greatestMoves sim.engine
  exact ⟨moves.map .move, by rw [after?_moves, hmoves]; rfl⟩

/-! ## What a request leads to -/

variable {sim sim' : Simulator} {r : Request}

/-- A request registers a machine without violations, starts an execution of a registered machine,
moves the engine, or is refused. -/
theorem serve?_cases (h : sim.serve? r = some sim') :
    (sim' = sim ∧ ∀ place, r.leafAt? place = none) ∨
    (∃ name machine, r = .register name machine ∧ machine.violations = [] ∧
      sim' = { sim with machines := Entries.insert sim.machines name machine }) ∨
    (∃ name input machine, r = .start name input ∧ sim.machine? name = some machine ∧
      sim' = { sim with engine := (sim.engine.launch name machine input).1 }) ∨
    (∃ move engine, r = .move move ∧ sim.engine.move move = some engine ∧
      sim' = { sim with engine }) := by
  cases r with
  | register name machine =>
    simp only [serve?, register] at h
    cases hv : machine.violations with
    | nil =>
      rw [hv] at h
      exact .inr (.inl ⟨name, machine, rfl, hv, (Option.some.inj h).symm⟩)
    | cons v vs =>
      rw [hv] at h
      exact .inl ⟨(Option.some.inj h).symm, fun _ => rfl⟩
  | start name input =>
    simp only [serve?, start] at h
    cases hm : sim.machine? name with
    | none =>
      rw [hm] at h
      exact .inl ⟨(Option.some.inj h).symm, fun _ => rfl⟩
    | some machine =>
      rw [hm] at h
      exact .inr (.inr (.inl ⟨name, input, machine, rfl, hm, (Option.some.inj h).symm⟩))
  | move move =>
    obtain ⟨engine, hmove, heq⟩ := Option.map_eq_some_iff.mp h
    exact .inr (.inr (.inr ⟨move, engine, rfl, hmove, heq.symm⟩))

theorem serve?_services (h : sim.serve? r = some sim') :
    sim'.engine.services = sim.engine.services := by
  rcases serve?_cases h with ⟨rfl, -⟩ | ⟨_, _, _, _, rfl⟩ | ⟨_, _, _, _, _, rfl⟩ |
    ⟨_, _, _, hmove, rfl⟩
  · rfl
  · rfl
  · rfl
  · exact (Engine.evolves_of_move hmove).services

/-- An execution after a request is a changed one, or a new one of a registered machine. -/
theorem serve?_execution (h : sim.serve? r = some sim') {place : Nat} {e' : Execution}
    (he' : sim'.engine.executions[place]? = some e') :
    (∃ e, sim.engine.executions[place]? = some e ∧
      e.Change sim.engine.services sim.engine.world (r.leafAt? place) e') ∨
    ∃ name machine input executionName, sim.machine? name = some machine ∧
      place = sim.engine.executions.length ∧
      e' = .create (.ofMachine name executionName input sim.engine.world.now) machine := by
  rcases serve?_cases h with ⟨rfl, hleaf⟩ | ⟨_, _, rfl, _, rfl⟩ |
    ⟨name, input, machine, rfl, hm, rfl⟩ | ⟨move, _, rfl, hmove, rfl⟩
  · rw [hleaf]
    exact .inl ⟨e', he', .same⟩
  · exact .inl ⟨e', he', .same⟩
  · simp only [Engine.launch] at he'
    rcases Nat.lt_trichotomy place sim.engine.executions.length with hlt | heq | hgt
    · rw [List.getElem?_append_left hlt] at he'
      exact .inl ⟨e', he', .same⟩
    · -- the new execution stands after all others
      subst heq
      obtain rfl : _ = e' := by simpa using he'
      exact .inr ⟨name, machine, input, _, hm, rfl, rfl⟩
    · rw [List.getElem?_append_right (Nat.le_of_lt hgt)] at he'
      have : place - sim.engine.executions.length ≠ 0 := by omega
      simp [this] at he'
  · exact .inl ((Engine.evolves_of_move hmove).change place e' he')

/-- An execution stays at its place. -/
theorem serve?_execution_of (h : sim.serve? r = some sim') {place : Nat} {e : Execution}
    (he : sim.engine.executions[place]? = some e) :
    ∃ e', sim'.engine.executions[place]? = some e' ∧
      e.Change sim.engine.services sim.engine.world (r.leafAt? place) e' := by
  have hlt : place < sim.engine.executions.length := (List.getElem?_eq_some_iff.mp he).1
  have hlt' : place < sim'.engine.executions.length := by
    rcases serve?_cases h with ⟨rfl, -⟩ | ⟨_, _, _, _, rfl⟩ | ⟨_, _, _, _, _, rfl⟩ |
      ⟨_, _, _, hmove, rfl⟩
    · exact hlt
    · exact hlt
    · simp only [Engine.launch, List.length_append]
      omega
    · rw [(Engine.evolves_of_move hmove).length]
      exact hlt
  have he' := List.getElem?_eq_getElem hlt'
  rcases serve?_execution h he' with ⟨e₁, he₁, hchange⟩ | ⟨_, _, _, _, _, rfl, _⟩
  · obtain rfl : e = e₁ := Option.some.inj (he.symm.trans he₁)
    exact ⟨_, he', hchange⟩
  · exact absurd hlt (Nat.lt_irrefl _)

/-- An execution that is started stands after all others. -/
theorem start_eq_ok {sim₁ : Simulator} {name : String} {input : Json} {place : Nat}
    (h : sim.start name input = .ok (sim₁, place)) :
    ∃ machine, sim.machine? name = some machine ∧ ∃ executionName,
      sim₁.engine.executions[place]? = some (.create
        (.ofMachine name executionName input sim.engine.world.now) machine) := by
  unfold start at h
  split at h
  · cases h
  · next machine hmachine =>
    obtain ⟨rfl, rfl⟩ := Prod.mk.inj (Except.ok.inj h)
    refine ⟨machine, hmachine, sim.engine.world.takeName.2, ?_⟩
    exact List.getElem?_concat_length

/-! ## What every session keeps -/

/-- A simulator with certain services, whose machines and executions went through validation. -/
structure Accepts (services : Services) (sim : Simulator) : Prop where
  services : sim.engine.services = services
  registered : ∀ name machine, sim.machine? name = some machine → machine.violations = []
  executions : ∀ (place : Nat) (e : Execution), sim.engine.executions[place]? = some e →
    e.machine.violations = []

theorem accepts_session {services : Services} {origin : Timestamp} {rs : List Request}
    {sim : Simulator} (h : (initial services origin).after? rs = some sim) :
    sim.Accepts services := by
  have hinit : (initial services origin).Accepts services :=
    ⟨rfl, by simp [initial, machine?], by simp [initial, Engine.initial]⟩
  refine session_induction (P := fun _ sim => sim.Accepts services) hinit
    (fun _ s r s' _ hs hr => ?_) rs h
  refine ⟨(serve?_services hr).trans hs.services, fun name machine hm => ?_, fun place e he => ?_⟩
  · rcases serve?_cases hr with ⟨rfl, -⟩ | ⟨name', machine', _, hv, rfl⟩ | ⟨_, _, _, _, _, rfl⟩ |
      ⟨_, _, _, _, rfl⟩
    · exact hs.registered name machine hm
    · unfold machine? at hm
      by_cases hname : name' = name
      · subst hname
        rw [Entries.get?_insert_self] at hm
        exact Option.some.inj hm ▸ hv
      · rw [Entries.get?_insert_of_ne _ _ hname] at hm
        exact hs.registered name machine hm
    · exact hs.registered name machine hm
    · exact hs.registered name machine hm
  · rcases serve?_execution hr he with ⟨e₀, he₀, hchange⟩ | ⟨name, machine, _, _, hm, _, rfl⟩
    · rw [hchange.fixed.1]
      exact hs.executions place e₀ he₀
    · exact hs.registered name machine hm

end Simulator

end StateFlow
