import StateFlow.Proofs.Execution.Trace
import StateFlow.Proofs.Simulator.Aborting

/-!
# What the events of an execution tell

From the moment at which an execution is started, and whatever else is asked of the simulator, its
events are a faithful account of it: they begin with its start and its input, the states that they
tell of are a walk through its machine, and when it has finished they end with its result, which is
told nowhere else (`Simulator.trace_of_start`).  Cancellations, time-outs, the functions behind its
tasks and the other executions only decide how far the walk goes.  The end is not told of an
execution that is aborted, because a function of it panics, nor of one that never ends
(`Simulator.exists_untold`).

## Main results

* `Simulator.traced_of_start`: an execution that was started stays traced
* `Simulator.trace_of_start`: what its events tell, while it goes on and when it has finished
* `Simulator.exists_untold`: not every execution has an event that ends it
-/

namespace StateFlow

namespace Simulator

variable {sim sim₁ sim₂ : Simulator} {name : String} {input : Json} {place : Nat}
  {rs : List Request}

/-- An execution that was started is traced after every session. -/
theorem traced_of_start (hstart : sim.start name input = .ok (sim₁, place))
    (hrs : sim₁.after? rs = some sim₂) :
    ∃ machine e, sim.machine? name = some machine ∧ sim₂.engine.executions[place]? = some e ∧
      e.machine = machine ∧ e.identity.input = input ∧ e.Traced := by
  obtain ⟨machine, hmachine, executionName, he⟩ := start_eq_ok hstart
  refine ⟨machine, ?_⟩
  have hinit : ∃ e, sim.machine? name = some machine ∧
      sim₁.engine.executions[place]? = some e ∧ e.machine = machine ∧ e.identity.input = input ∧
      e.Traced := ⟨_, hmachine, he, rfl, rfl, Execution.traced_create _ machine⟩
  refine session_induction (P := fun _ s => ∃ e, sim.machine? name = some machine ∧
    s.engine.executions[place]? = some e ∧ e.machine = machine ∧ e.identity.input = input ∧
    e.Traced) hinit ?_ rs hrs
  rintro _ s r s' - ⟨e₁, -, he₁, hm₁, hinput₁, htraced₁⟩ hr
  obtain ⟨e₂, he₂, hchange⟩ := serve?_execution_of hr he₁
  obtain ⟨hm, hidentity⟩ := hchange.fixed
  refine ⟨e₂, hmachine, he₂, hm.trans hm₁, ?_, htraced₁.change hchange⟩
  rw [hidentity]
  exact hinput₁

/-- **The events of an execution are a faithful account of it.**  Before it has finished they are
its start, with its input, and then the events of states only.  They stay so when it is aborted,
which happens only if a function of it panics.  When it has finished otherwise, one more event tells
the result, and no other event ends an execution.  In every case the events of no item are a walk
through the machine that was registered when the execution was started; an execution that has
succeeded has come to the end of its walk with its output. -/
theorem trace_of_start (hstart : sim.start name input = .ok (sim₁, place))
    (hrs : sim₁.after? rs = some sim₂) :
    ∃ machine e, sim.machine? name = some machine ∧ sim₂.engine.executions[place]? = some e ∧
      e.identity.input = input ∧
      match e.result? with
      | none => e.events = [] ∨ ∃ told p,
        e.events = .executionStarted e.identity.executionId e.identity.machineName input :: told ∧
        (∀ event ∈ told, event.isOfState = true) ∧
        Walk machine e.identity (told.filter Event.isTop) p
      | some (.error (.executionAborted report)) => Panics sim₁ rs place report ∧ ∃ told p,
        e.events = .executionStarted e.identity.executionId e.identity.machineName input :: told ∧
        (∀ event ∈ told, event.isOfState = true) ∧ e.events.filter Event.isEnding = [] ∧
        Walk machine e.identity (told.filter Event.isTop) p
      | some result => ∃ told last p,
        e.events = .executionStarted e.identity.executionId e.identity.machineName input ::
          (told ++ [last]) ∧
        (∀ event ∈ told, event.isOfState = true) ∧
        last.Tells result ∧ e.events.filter Event.isEnding = [last] ∧
        Walk machine e.identity (told.filter Event.isTop) p ∧
        ∀ output, result = .ok output → p = .after output ∧
          ∃ state, (told.filter Event.isTop).getLast? = some (.stateExited state output none) := by
  obtain ⟨machine, e, hmachine, he, rfl, rfl, htraced⟩ := traced_of_start hstart hrs
  refine ⟨e.machine, e, hmachine, he, rfl, ?_⟩
  unfold Execution.Traced at htraced
  cases hphase : e.phase with
  | created =>
    rw [hphase] at htraced
    simp only [Execution.result?, hphase]
    exact .inl htraced
  | running run deadline? =>
    rw [hphase] at htraced
    simp only [Execution.result?, hphase]
    obtain ⟨told, hevents, hstates, p, hwalk, -⟩ := htraced
    exact .inr ⟨told, p, hevents, hstates, hwalk⟩
  | finished result =>
    rw [hphase] at htraced
    simp only [Execution.result?, hphase]
    obtain ⟨told, hevents, hstates, p, hwalk, hstands⟩ := htraced
    have hending :
        e.events.filter Event.isEnding = (Event.closing result).filter Event.isEnding := by
      have hnone : told.filter Event.isEnding = [] := by
        rw [List.filter_eq_nil_iff]
        intro event hevent
        rw [Event.isEnding_of_isOfState (hstates event hevent)]
        exact Bool.false_ne_true
      have hfirst : e.startEvent.isEnding = false := rfl
      rw [hevents, List.filter_cons_of_neg (by simp [hfirst]), List.filter_append, hnone,
        List.nil_append]
    have hsucceeded : ∀ output, result = .ok output → p = .after output ∧
        ∃ state, (told.filter Event.isTop).getLast? = some (.stateExited state output none) := by
      rintro output rfl
      obtain rfl : p = .after output := hstands
      exact ⟨rfl, hwalk.getLast?_of_after⟩
    split
    · next hnone => cases hnone
    · next report heq =>
      obtain rfl := Option.some.inj heq
      rw [Event.closing, List.append_nil] at hevents
      have hresult : e.result? = some (.error (.executionAborted report)) := by
        rw [Execution.result?, hphase]
      exact ⟨panics_of_start hstart hrs he hresult, told, p, hevents, hstates, hending, hwalk⟩
    · next result' hother heq =>
      obtain rfl := Option.some.inj heq
      have hclosing : Event.closing result = [.ending result] := by
        apply Event.closing_of_unaborted
        rcases result with fault | output
        · cases fault with
          | executionAborted report => exact (hother report rfl).elim
          | _ => rfl
        · trivial
      rw [hclosing] at hevents hending
      exact ⟨told, .ending result, p, hevents, hstates, Event.tells_ending result,
        by simpa using hending, hwalk, hsucceeded⟩

/-- **Not every execution has an event that ends it.**  One whose function panics is aborted, and
one whose function never returns can do nothing more and waits for no time; of both only the start
and the entry of the state are told. -/
theorem exists_untold :
    (∃ sim e, (initial (behaving (.panic "boom")) default).after?
        (calledOnce ++ [.move (.abort 0 [])]) = some sim ∧
      sim.engine.executions[0]? = some e ∧
      e.result? = some (.error (.executionAborted "boom")) ∧
      e.events.length = 2 ∧ e.events.filter Event.isEnding = []) ∧
    ∃ sim e, (initial (behaving .hang) default).after? calledOnce = some sim ∧
      sim.engine.executions[0]? = some e ∧ e.result?.isNone ∧
      e.candidates sim.engine.world = [] ∧ e.timers = [] ∧
      e.events.length = 2 ∧ e.events.filter Event.isEnding = [] := by
  constructor
  · have hcheck : ((initial (behaving (.panic "boom")) default).after?
        (calledOnce ++ [.move (.abort 0 [])])).bind (fun sim =>
          sim.engine.executions[0]?.bind fun e => (sim.engine.fault? 0).map fun fault =>
            (fault, e.events.length, (e.events.filter Event.isEnding).length)) =
        some (.executionAborted "boom", 2, 0) := by decide +kernel
    obtain ⟨sim, hsim, hcheck⟩ := Option.bind_eq_some_iff.mp hcheck
    obtain ⟨e, he, hcheck⟩ := Option.bind_eq_some_iff.mp hcheck
    obtain ⟨fault, hfault, hcheck⟩ := Option.map_eq_some_iff.mp hcheck
    obtain ⟨rfl, hlength, hnone⟩ :
        fault = .executionAborted "boom" ∧ e.events.length = 2 ∧
          (e.events.filter Event.isEnding).length = 0 := by
      simpa only [Prod.mk.injEq] using hcheck
    refine ⟨sim, e, hsim, he, ?_, hlength, List.eq_nil_of_length_eq_zero hnone⟩
    have hresult := Engine.fault?_eq_some_iff.mp hfault
    rwa [Engine.result?, he, Option.bind_some] at hresult
  · have hcheck : ((initial (behaving .hang) default).after? calledOnce).bind (fun sim =>
        sim.engine.executions[0]?.map fun e =>
          (e.result?.isNone, (e.candidates sim.engine.world).length, e.timers, e.events.length,
            (e.events.filter Event.isEnding).length)) = some (true, 0, [], 2, 0) := by
      decide +kernel
    obtain ⟨sim, hsim, hcheck⟩ := Option.bind_eq_some_iff.mp hcheck
    obtain ⟨e, he, hcheck⟩ := Option.map_eq_some_iff.mp hcheck
    simp only [Prod.mk.injEq] at hcheck
    obtain ⟨hresult, hidle, htimers, hlength, hnone⟩ := hcheck
    exact ⟨sim, e, hsim, he, hresult, List.eq_nil_of_length_eq_zero hidle, htimers, hlength,
      List.eq_nil_of_length_eq_zero hnone⟩

/-! ### Through a Map state to the end -/

/-- Forwards its input to a Map state, whose items forward theirs, and then succeeds. -/
def forwarding : Machine where
  comment? := none
  startAt := "First"
  states := [("First", .pass ⟨none, .absent, none, .absent, .absent, ⟨some "Each", false⟩⟩),
    ("Each", .map ⟨none, none, none, none, 0, .absent, .absent, .absent, ⟨some "Done", false⟩⟩
      (some ⟨none, "Item", [("Item",
        .pass ⟨none, .absent, none, .absent, .absent, ⟨none, true⟩⟩)], none⟩) none),
    ("Done", .succeed ⟨none, .absent, .absent⟩)]
  timeout? := none

/-- The start, the steps of each state in turn, and those of the two items, the second one first. -/
def forwarded : List Request :=
  [.move (.start 0), .move (.leaf 0 .step []), .move (.leaf 0 .step []), .move (.leaf 0 .step []),
    .move (.leaf 0 .step [1]), .move (.leaf 0 .step [1]), .move (.leaf 0 .step [0]),
    .move (.leaf 0 .step [0]), .move (.leaf 0 .step []), .move (.leaf 0 .step []),
    .move (.leaf 0 .step [])]

/-- Of the twelve events six are told of no item; they walk from the first state to the end. -/
theorem trace_of_start_forwarded :
    ∃ sim sim₁ sim₂ machine place e told output,
      (initial (.standard Bindings.none fun _ => none) default).after?
        [.register "m" forwarding] = some sim ∧
      sim.machine? "m" = some machine ∧
      sim.start "m" (.array [.null, .null]) = .ok (sim₁, place) ∧
      sim₁.after? forwarded = some sim₂ ∧ sim₂.engine.executions[place]? = some e ∧
      e.result? = some (.ok output) ∧ e.events.length = 12 ∧ told.length = 6 ∧
      Walk machine e.identity told (.after output) := by
  have hcheck : (((initial (.standard Bindings.none fun _ => none) default).after?
      [.register "m" forwarding]).bind fun sim =>
        ((sim.start "m" (.array [.null, .null])).toOption).bind fun started =>
          (started.1.after? forwarded).bind fun sim₂ =>
            (sim₂.engine.executions[started.2]?).map fun e =>
              (e.events.length, (e.events.filter Event.isTop).length,
                (e.result?.bind (·.toOption)).isSome)) = some (12, 6, true) := by decide +kernel
  obtain ⟨sim, hsim, hcheck⟩ := Option.bind_eq_some_iff.mp hcheck
  obtain ⟨⟨sim₁, place⟩, hstart, hcheck⟩ := Option.bind_eq_some_iff.mp hcheck
  obtain ⟨sim₂, hsim₂, hcheck⟩ := Option.bind_eq_some_iff.mp hcheck
  obtain ⟨e, he, hcheck⟩ := Option.map_eq_some_iff.mp hcheck
  simp only [Prod.mk.injEq] at hcheck
  obtain ⟨hlength, htop, hsucceeded⟩ := hcheck
  obtain ⟨output, hresult⟩ := Execution.exists_output hsucceeded
  have hstart' : sim.start "m" (.array [.null, .null]) = .ok (sim₁, place) := by
    cases hs : sim.start "m" (.array [.null, .null]) with
    | ok started => simpa [hs, Except.toOption] using hstart
    | error fault => simp [hs, Except.toOption] at hstart
  obtain ⟨machine, e₁, hmachine, he₁, -, htrace⟩ := trace_of_start hstart' hsim₂
  obtain rfl : e = e₁ := Option.some.inj (he.symm.trans he₁)
  rw [hresult] at htrace
  obtain ⟨told, last, p, hevents, -, hlast, -, hwalk, houtput⟩ := htrace
  obtain ⟨rfl, -⟩ := houtput output rfl
  have hcount : (told.filter Event.isTop).length = 6 := by
    rw [hevents] at htop
    cases hlast
    simpa [Event.isTop] using htop
  exact ⟨sim, sim₁, sim₂, machine, place, e, _, output, hsim, hmachine, hstart', hsim₂, he, hresult,
    hlength, hcount, hwalk⟩

end Simulator

end StateFlow
