import StateFlow.Proofs.Machine.WellFormed
import StateFlow.Proofs.Simulator.Provenance

/-!
# What executions of accepted machines fail with

Validation looks at a definition once, when it is registered; an execution looks at it again with
every state that it enters, at any depth of Map states.  The two agree: a fault that validation is
there to rule out does not arise in any session (`Simulator.permitted_of_result`).

Two faults of the definition remain.  A Parallel state can be registered but not run, so a run that
comes to one fails.  A Choice state may be left without a state to go to, and then it has no default
and each of its rules was evaluated to false.  In both cases the fault tells which frame it was, and
this frame failed when it was about to enter that state.

## Main definitions

* `Simulator.FailsToEnter`: in a session, a frame failed when it was about to enter a state
* `Simulator.Permitted`: the faults with which an execution of a session may end

## Main results

* `Simulator.permitted_of_raises`: the causes that validation leaves
* `Simulator.permitted_of_result`: an execution of an accepted machine fails only as permitted
-/

namespace StateFlow

namespace Simulator

/-- In some move of a session the frame at the end of a path, in the execution at a place, was about
to enter a state of a level, and the entry ended it with a fault. -/
def FailsToEnter (origin : Simulator) (rs : List Request) (place : Nat)
    (path : List (String × Nat)) (m : Machine) (name : String) (input : Json) (identity : Identity)
    (now : Timestamp) (fault : Fault) : Prop :=
  ∃ before move sim e root item? s',
    before ++ [.move (.leaf place move (addressOf path))] <+: rs ∧ origin.after? before = some sim ∧
    sim.engine.executions[place]? = some e ∧ e.frame? = some root ∧
    root.LeadsTo path ⟨m, item?, .entering name input⟩ ∧
    Run.moveLeaf ⟨sim.engine.services, e.identity⟩ move m item? (e.situation sim.engine.world)
      (.entering name input) = some (s', .ended (.error fault)) ∧
    e.identity = identity ∧ sim.engine.world.now = now

/-- The faults with which an execution of a session may end; the path leads to the frame that the
fault is about, by the Map states that have passed it on. -/
def Permitted (origin : Simulator) (rs : List Request) (place : Nat) :
    (path : List (String × Nat)) → Fault → Prop
  | path, .itemFailed state index source =>
    Permitted origin rs place (path ++ [(state, index)]) source
  | _, .stateNotFound _ | _, .invalidDefinition _ => False
  | _, .invalidDelay _ (.count _) => False
  | _, .unsupportedPath _ .noVariable => False
  | path, .unsupportedState type => type = StateKind.parallel.name ∧
    ∃ m name input identity now parallel,
      FailsToEnter origin rs place path m name input identity now (.unsupportedState type) ∧
      m.state? name = some (.parallel parallel)
  | path, .noMatchingChoice name => ∃ m input identity now choice effective,
    FailsToEnter origin rs place path m name input identity now (.noMatchingChoice name) ∧
    m.state? name = some (.choice choice) ∧ choice.default? = none ∧
    choice.input.project input = .ok effective ∧
    ∀ rule ∈ choice.rules,
      rule.holds effective (Context.ofState identity name now) = .ok false
  | _, _ => True

variable {origin sim : Simulator} {rs : List Request} {place : Nat} {path : List (String × Nat)}
  {fault : Fault}

/-- What is permitted at the end of a path may be passed on along it. -/
theorem permitted_wrapped {inner : List (String × Nat)} :
    Permitted origin rs place path (fault.wrapped inner) ↔
      Permitted origin rs place (path ++ inner) fault := by
  induction inner generalizing path with
  | nil => rw [Fault.wrapped_nil, List.append_nil]
  | cons p inner ih => rw [Fault.wrapped_cons, Permitted, ih, List.append_assoc]; rfl

theorem permitted_of_ofPayload (h : fault.OfPayload) : Permitted origin rs place path fault := by
  cases fault with
  | unsupportedPath expression flaw => cases flaw <;> first | exact absurd rfl h | trivial
  | pathNotFound expression => trivial
  | missingField field => trivial
  | unsupportedField field => trivial
  | _ => exact h.elim

/-- **The causes that validation leaves**: a leaf at a valid level, with the standard kinds of
states, ends only with what is permitted. -/
theorem permitted_of_raises {services : Services} (hkinds : services.kinds = Services.standardKinds)
    {root : Machine} {e : Execution} {now : Timestamp} {s : Situation} (hnow : s.world.now = now)
    {leaf : Frame} (hleaf : leaf.Sound root fun _ _ => True) (hvalid : leaf.machine.LevelValid)
    (hentry : ∀ name input, leaf.run = .entering name input →
      FailsToEnter origin rs place path leaf.machine name input e.identity now fault)
    (h : Raises ⟨services, e.identity⟩ leaf.machine s leaf.run fault) :
    Permitted origin rs place path fault := by
  obtain ⟨m, item?, run⟩ := leaf
  subst hnow
  cases h with
  | cancelled _ => trivial
  | payload h => exact permitted_of_ofPayload h
  | unknown hnone =>
    have hknown : (m.state? _).isSome := hvalid.known_of_mentions hleaf.run
    rw [hnone] at hknown
    cases hknown
  | @kind name input state hs hkind =>
    cases state with
    | parallel p => exact ⟨rfl, m, name, input, _, _, p, hentry name input rfl, hs⟩
    | _ =>
      rw [hkinds] at hkind
      simp [State.kind, Services.standardKinds] at hkind
  | unbound _ _ => trivial
  -- validation has counted the delays, so only their values are left to fail
  | @delay name input wait flaw hs hcount =>
    cases flaw with
    | count found => exact absurd (hvalid.valid_of_state? hs).2 (hcount found rfl)
    | _ => trivial
  | @choice name input choice _ hs hfails =>
    obtain ⟨-, hrules, -⟩ := hvalid.valid_of_state? hs
    rcases hfails with h | ⟨rule, hmem, hn, -⟩ | ⟨rfl, hd, effective, hi, h⟩
    · exact permitted_of_ofPayload h
    · exact absurd (hrules rule hmem).2 hn
    · refine ⟨m, input, _, _, choice, effective, hentry name input rfl, hs, hd, hi, ?_⟩
      rcases h with hfalse | ⟨rule, hmem, hnone⟩
      · exact hfalse
      · -- a rule that holds without a successor is not valid
        obtain ⟨⟨next, -, hnext⟩, -⟩ := hrules rule hmem
        rw [hnone] at hnext
        cases hnext
  | declared _ => trivial
  | unrunnable hs hnone =>
    have hsome := (hvalid.valid_of_state? hs).2
    rw [hnone] at hsome
    cases hsome
  | items _ => trivial
  | failed => trivial
  | timedOut => trivial

/-- **What is raised in a session is permitted** where it is raised. -/
theorem permitted_of_raisedAt {services : Services} {start : Timestamp}
    (hkinds : services.kinds = Services.standardKinds)
    (h : RaisedAt (initial services start) rs place path fault) :
    Permitted (initial services start) rs place path fault := by
  obtain ⟨before, move, address, sim, e, root, hbefore, hsim, he, hroot, hraises⟩ := h
  have haccepts := accepts_session hsim
  have hsound := ((accounted_session hsim place e he).1).root hroot
  rcases hraises.cause hsound with hpayload | ⟨rfl, leaf, s', hpath, hmove, hcause⟩
  · exact permitted_of_ofPayload hpayload
  · have hleaf := (hsound.of_at? hpath.at?).here
    rw [haccepts.services] at hcause
    refine permitted_of_raises hkinds rfl hleaf
      (Machine.levelValid_of_violations (haccepts.executions place e he) hleaf.level) ?_ hcause
    intro name input hrun
    obtain ⟨m, item?, run⟩ := leaf
    obtain rfl : run = .entering name input := hrun
    exact ⟨before, move, sim, e, root, item?, s', hbefore, hsim, he, hroot, hpath, hmove, rfl, rfl⟩

/-- **An execution of an accepted machine fails only as permitted**, whatever machines were
registered, whatever its input and its functions do, in every order of steps and with a cancellation
at any moment. -/
theorem permitted_of_result {services : Services} {start : Timestamp}
    (hkinds : services.kinds = Services.standardKinds)
    (h : (initial services start).after? rs = some sim)
    (hresult : sim.engine.result? place = some (.error fault)) :
    Permitted (initial services start) rs place [] fault := by
  obtain ⟨e, he, hfinished⟩ := Option.bind_eq_some_iff.mp hresult
  have haccounted := (accounted_session h place e he).2
  simp only [Execution.Accounted, Execution.result?_eq_some_iff.mp hfinished] at haccounted
  rcases haccounted with ⟨seconds, rfl⟩ | ⟨report, rfl⟩ | rfl | ⟨path, leaf, -, rfl, -, hraised⟩
  · trivial
  · trivial
  · trivial
  · exact permitted_wrapped.mpr (permitted_of_raisedAt hkinds hraised)

/-! ### A Choice state without a way on, inside a Map state -/

/-- A session in which the one item is no string. -/
def choosingSession : List Request :=
  [.register "m" mapping, .start "m" (.array [.null]), .move (.start 0),
    .move (.leaf 0 .step []), .move (.leaf 0 .step [0])]

theorem permitted_of_result_choosing :
    let origin := initial (.standard .none fun _ => none) default
    ∃ sim, origin.after? choosingSession = some sim ∧
      sim.engine.result? 0 =
        some (.error (.itemFailed "Each" 0 (.noMatchingChoice "Choose"))) ∧
      Permitted origin choosingSession 0 [("Each", 0)] (.noMatchingChoice "Choose") := by
  intro origin
  have hfault : (origin.after? choosingSession).bind (·.engine.fault? 0) =
      some (.itemFailed "Each" 0 (.noMatchingChoice "Choose")) := by decide +kernel
  obtain ⟨sim, hsim, hfault⟩ := Option.bind_eq_some_iff.mp hfault
  have hresult := Engine.fault?_eq_some_iff.mp hfault
  exact ⟨sim, hsim, hresult, permitted_of_result rfl hsim hresult⟩

end Simulator

end StateFlow
