import StateFlow.Proofs.Execution.OnCourse

/-!
# Sessions with many executions

In a session many executions of the same and of different machines run at once, and some of them may
be cancelled.  With steady services none of them feels the others: what has become of an execution
that is not cancelled has become of it in an engine of its own, started at the same time and under
the same name, where nothing else happens (`Simulator.alone_of_session`).  And when it would end
there, it ends in the session.

## Main definitions

* `Simulator.Request.Spares place`: a request that does not cancel the execution at a place

## Main results

* `Simulator.orderly_session`: with steady services every session keeps the engine orderly
* `Simulator.alone_of_session`: an execution among others is as it would be alone
-/

namespace StateFlow

namespace Simulator

/-- Nobody reports from outside by the request, or cancels the execution at a place. -/
def Request.Spares (place : Nat) : Request → Prop
  | .move (.cancel other) => other ≠ place
  | .move (.settle _ _) => False
  | _ => True

variable {services : Services} {origin : Timestamp} {earlier later rs : List Request}
  {before started sim sim' : Simulator} {r : Request} {name : String} {input : Json}
  {machine : Machine} {place : Nat} {foreign : List String} {alone : Engine} {e : Execution}

/-! ## Requests -/

/-- With steady services every session keeps the engine orderly. -/
theorem orderly_session (hservices : services.Steady)
    (h : (initial services origin).after? rs = some sim)
    (hnames : sim.engine.world.NamesDistinct) : sim.engine.Orderly := by
  have hinit : (initial services origin).engine.Orderly := by
    refine ⟨hservices, ⟨List.nodup_nil, nofun, ?_⟩, nofun, nofun⟩
    intro token ticket hticket
    cases hticket
  refine session_induction (P := fun _ sim => sim.engine.world.NamesDistinct →
    sim.engine.Orderly) (fun _ => hinit) ?_ rs h hnames
  intro rs s r s' _ ih hr hnames'
  have hs := ih (hnames'.mono (serve?_books hr).named_le)
  rcases serve?_cases hr with ⟨rfl, -⟩ | ⟨_, _, -, -, rfl⟩ | ⟨name, input, machine, -, -, rfl⟩ |
    ⟨_, _, -, hmove, rfl⟩
  · exact hs
  · exact hs
  · exact hs.launch name machine input hnames'
  · exact hs.move hmove hnames'

/-- A request is a deed of the execution, or something beside it. -/
theorem runsAlone_of_serve? (h : sim.engine.Mirrors place foreign alone e)
    (hr : sim.serve? r = some sim') (hspares : r.Spares place)
    (hnames : sim'.engine.world.NamesDistinct) :
    ∃ foreign' alone' e', alone.RunsAlone alone' ∧
      sim'.engine.Mirrors place foreign' alone' e' := by
  have hbeside : ∀ engine', sim.engine.Beside place engine' → engine'.world.NamesDistinct →
      ∃ foreign' alone' e', alone.RunsAlone alone' ∧ engine'.Mirrors place foreign' alone' e' := by
    intro engine' hbeside hnames
    obtain ⟨foreign', alone', hrests, hmirrors⟩ := h.beside hbeside hnames
    exact ⟨foreign', alone', e, .single ⟨.inl hrests, hmirrors.namesDistinct hnames⟩, hmirrors⟩
  have hdeed : ∀ (d : Deed) engine', sim.engine.move (d.at place) = some engine' →
      engine'.world.NamesDistinct →
      ∃ foreign' alone' e', alone.RunsAlone alone' ∧ engine'.Mirrors place foreign' alone' e' := by
    intro d engine' hmove hnames
    rcases h.deed d with ⟨hnone, -⟩ | ⟨engine₁, alone', e', hmove₁, hmove', -, hmirrors⟩
    · rw [hnone] at hmove
      cases hmove
    · obtain rfl := Option.some.inj (hmove.symm.trans hmove₁)
      have hmirrors := hmirrors hnames
      exact ⟨foreign, alone', e', .single ⟨.inr ⟨d, hmove'⟩, hmirrors.namesDistinct hnames⟩,
        hmirrors⟩
  rcases serve?_cases hr with ⟨rfl, -⟩ | ⟨_, _, -, -, rfl⟩ | ⟨name, input, machine, -, -, rfl⟩ |
    ⟨m, engine', rfl, hmove, rfl⟩
  · exact ⟨foreign, alone, e, .refl, h⟩
  · exact ⟨foreign, alone, e, .refl, h⟩
  · exact hbeside _ (.launch name machine input) hnames
  · by_cases hm : m.IsBeside place
    · exact hbeside engine' (.move hm hmove) hnames
    · cases m with
      | start other =>
        obtain rfl : other = place := Decidable.of_not_not hm
        exact hdeed .start engine' hmove hnames
      | leaf other move address =>
        obtain rfl : other = place := Decidable.of_not_not hm
        exact hdeed (.leaf move address) engine' hmove hnames
      | abort other address =>
        obtain rfl : other = place := Decidable.of_not_not hm
        exact hdeed (.abort address) engine' hmove hnames
      | expire other =>
        obtain rfl : other = place := Decidable.of_not_not hm
        exact hdeed .expire engine' hmove hnames
      | cancel other => exact (hm hspares).elim
      | settle token settlement => exact hspares.elim
      | report n => exact (hm trivial).elim
      | wait time => exact (hm trivial).elim

/-- An execution that has been started is mirrored by an engine that has only this one. -/
theorem mirrors_start (hbefore : before.engine.Orderly)
    (hmachine : before.machine? name = some machine) (htimeout : machine.timeout? = none)
    (hstart : before.start name input = .ok (started, place))
    (hnames : started.engine.world.NamesDistinct) :
    ∃ foreign e, started.engine.Mirrors place foreign
      (before.engine.vacant.launch name machine input).1 e := by
  simp only [start, hmachine, Except.ok.injEq, Prod.mk.injEq] at hstart
  obtain ⟨rfl, rfl⟩ := hstart
  exact ⟨_, _, hbefore.mirrors_launch name htimeout input hnames⟩

/-- An execution that is spared is mirrored for as long as the session goes on. -/
theorem mirrors_session (h : started.engine.Mirrors place foreign alone e)
    (hlater : started.after? later = some sim) (hspares : ∀ r ∈ later, r.Spares place)
    (hnames : sim.engine.world.NamesDistinct) :
    ∃ foreign' alone' e', alone.RunsAlone alone' ∧
      sim.engine.Mirrors place foreign' alone' e' := by
  refine session_induction (P := fun rs s => (∀ r ∈ rs, r.Spares place) →
    s.engine.world.NamesDistinct → ∃ foreign' alone' e', alone.RunsAlone alone' ∧
      s.engine.Mirrors place foreign' alone' e')
    (fun _ _ => ⟨foreign, alone, e, .refl, h⟩) ?_ later hlater hspares hnames
  intro rs s r s' _ ih hr hspares hnames'
  obtain ⟨foreign₁, alone₁, e₁, hruns, hmirrors⟩ :=
    ih (fun r hmem => hspares r (List.mem_append_left _ hmem))
      (hnames'.mono (serve?_books hr).named_le)
  obtain ⟨foreign₂, alone₂, e₂, hruns', hmirrors'⟩ :=
    runsAlone_of_serve? hmirrors hr (hspares r (by simp)) hnames'
  exact ⟨foreign₂, alone₂, e₂, hruns.trans hruns', hmirrors'⟩

/-- **An execution among others is as it would be alone.**  With steady services, in every session
with distinct names, for every execution that has no deadline and is not cancelled from outside: an
engine of its own, started at the same time, comes by a run alone to the very same execution, with
the same result and the same events.  When that one can end, or would end in whatever order things
happen, so it is in the session.  And if no function races with its own reports, how it ends is how
every execution of the machine ends that runs alone, from whatever time on, as far as names and
times do not matter and no function panics. -/
theorem alone_of_session (hservices : services.Steady)
    (hbefore : (initial services origin).after? earlier = some before)
    (hmachine : before.machine? name = some machine) (htimeout : machine.timeout? = none)
    (hstart : before.start name input = .ok (started, place))
    (hlater : started.after? later = some sim) (hspares : ∀ r ∈ later, r.Spares place)
    (hnames : sim.engine.world.NamesDistinct) :
    ∃ e alone, sim.engine.executions[place]? = some e ∧
      (before.engine.vacant.launch name machine input).1.RunsAlone alone ∧
      alone.executions = [e] ∧ alone.world.clock = sim.engine.world.clock ∧
      (alone.CanEnd 0 → sim.engine.CanEnd place) ∧
      ((before.engine.vacant.launch name machine input).1.Ends Engine.Rests 0 →
        sim.engine.Ends (Engine.Beside place) place) ∧
      ∀ result, e.result? = some result → e.cancelled = false →
        machine.EndsAloneWith services name input (e.topEvents, result) ∧
        (services.Sequenced → machine.Unlimited → ∀ {α : Type} (view : Course → α),
          machine.Indifferent services name input view →
          (∀ report, result ≠ .error (.executionAborted report)) → ∀ course,
          machine.EndsAloneWith services name input course →
          (∀ report, course.2 ≠ .error (.executionAborted report)) →
          view (e.topEvents, result) = view course) := by
  have hstarted : started.engine.world.NamesDistinct := by
    refine session_induction (P := fun _ s => s.engine.world.NamesDistinct →
      started.engine.world.NamesDistinct) id ?_ later hlater hnames
    intro rs s r s' _ ih hr hnames'
    exact ih (hnames'.mono (serve?_books hr).named_le)
  have horderly : before.engine.Orderly := by
    refine orderly_session hservices hbefore (hstarted.mono ?_)
    have hserved : before.serve? (.start name input) = some started := by
      simp [serve?, hstart]
    exact (serve?_books hserved).named_le
  have hsame : before.engine.services = services := (accepts_session hbefore).services
  obtain ⟨foreign₀, e₀, hmirrors₀⟩ := mirrors_start horderly hmachine htimeout hstart hstarted
  obtain ⟨foreign, alone, e, hruns, hmirrors⟩ := mirrors_session hmirrors₀ hlater hspares hnames
  refine ⟨e, alone, hmirrors.here, hruns, hmirrors.single, hmirrors.world.clock,
    hmirrors.canEnd hnames, fun hends => hmirrors.ends hnames (hends.of_runsAlone hruns), ?_⟩
  intro result hresult hactive
  have halone : machine.EndsAloneWith services name input (e.topEvents, result) :=
    ⟨before.engine, alone, e, hsame, hruns, hmirrors.single, hactive, rfl, hresult⟩
  refine ⟨halone,
    fun hsequenced hunlimited α view hview hunaborted course hcourse hunaborted' => ?_⟩
  exact halone.view_eq hcourse hunaborted hunaborted' hservices hsequenced htimeout hunlimited hview

/-! ### An execution beside one that is cancelled -/

/-- Services whose one function reports its input for the token of its task. -/
def reportingServices : Services :=
  .standard (Bindings.none.insert "m" "A" ⟨"f", "main"⟩) fun _ =>
    some fun _ input context =>
      match Script.tokenOf? context with
      | some token => .settle token [.success input] (.answer (.ok .null))
      | none => .answer (.ok input)

theorem steady_reportingServices : reportingServices.Steady := by
  refine ⟨?_, ?_⟩
  · rintro binding handler ⟨⟩ earlier earlier' input context
    rfl
  · rintro binding handler ⟨⟩ earlier input context
    dsimp only
    cases Script.tokenOf? context with
    | none => trivial
    | some token => exact ⟨rfl, trivial⟩

theorem sequenced_reportingServices : reportingServices.Sequenced := by
  rintro binding handler ⟨⟩ earlier input context
  dsimp only
  cases Script.tokenOf? context with
  | none => trivial
  | some token => trivial

/-- A callback task. -/
def waitingTask : TaskState :=
  ⟨none, "f.waitForTaskToken", .absent, some (.object [("FunctionName", .string "f")]), .absent,
    .absent, none, ⟨none, true⟩⟩

/-- A machine with this task alone. -/
def waiting : Machine := ⟨none, "A", [("A", .task waitingTask)], none⟩

theorem unlimited_waiting : waiting.Unlimited := by
  intro p hp
  obtain rfl : p = ("A", waitingTask) := List.mem_singleton.mp hp
  rfl

/-- Whenever the task begins, its function is to report for the token that was issued. -/
theorem begin_waitingTask (s : Situation) (executionName : String) (started : Timestamp) :
    let scope : Scope := ⟨reportingServices, .ofMachine "m" executionName .null started⟩
    (waitingTask.begin scope s "A" .null (Context.ofState scope.identity "A" s.world.now)).2 =
      .working "A" .null (.task ⟨waitingTask, .acting (.settle (freshName s.world.named)
        [.success (.object [])] (.answer (.ok .null))), some (freshName s.world.named), none⟩) := by
  intro scope
  have hmachine : scope.identity.machineName = "m" := by
    show machineOfId (machineId "m") = "m"
    decide +kernel
  have hbinding : reportingServices.bindings.lookup? "m" "A" = some ⟨"f", "main"⟩ := by
    decide +kernel
  have hinput : waitingTask.input.project .null = .ok .null := rfl
  have hpayload : ∀ context, Template.callbackPayload .null context waitingTask.parameters? =
      .ok (.object []) := fun _ => rfl
  have hcallback : waitingTask.isCallback = true := by decide +kernel
  unfold TaskState.begin TaskState.beginCallback
  rw [hinput]
  dsimp only
  rw [hmachine, hbinding]
  dsimp only
  rw [if_pos hcallback, hpayload]
  rfl

/-- The one course of the machine. -/
def waitingCourse : Course :=
  ([.stateEntered "A" .task .null none, .stateExited "A" (.object []) none], .ok (.object []))

/-- What the machine comes to does not depend on names and times. -/
theorem eq_waitingCourse {course : Course}
    (h : waiting.ComesTo reportingServices "m" .null course) : course = waitingCourse := by
  obtain ⟨executionName, started, origin, readings, h⟩ := h
  cases readings with
  | nothing => cases h
  | entry clock named items next =>
    have haccepted : ∀ token, ((Tokens.single token .fresh).settleAll token
        [.success (.object [])]).2 = .ok () := by
      intro token
      simp [Tokens.settleAll, Tokens.settle, Tokens.complete, Tokens.ticket?_single, Ticket.fresh]
    have hverdict : ∀ course?, (State.task waitingTask).verdict?
        ⟨reportingServices, .ofMachine "m" executionName .null started⟩ origin clock named "A" .null
        course? = some (.ok ⟨none, true, .object []⟩) := by
      intro course?
      have hbegin := begin_waitingTask ⟨.at origin clock named, false, []⟩ executionName started
      refine (congrArg Run.verdict? hbegin).trans ?_
      simp only [Run.verdict?, TaskWork.verdict?, Progress.verdict?, Behaviour.verdict?,
        Ticket.settledAll_nil, haccepted]
      rfl
    have hstart : waiting.startAt = "A" := rfl
    have hstate : waiting.state? "A" = some (.task waitingTask) := rfl
    have hkind : reportingServices.checkKind (State.task waitingTask).kind = .ok () := by rfl
    rw [hstart] at h
    simp only [Readings.course?, hstate, hkind, hverdict, Option.bind_some] at h
    exact (Option.some.inj h).symm

/-- Another execution of the same machine has been started before. -/
def firstStarted : List Request := [.register "m" waiting, .start "m" (.string "first")]

/-- Two executions take turns, and the first is cancelled on the way. -/
def besideCancelled : List Request :=
  [.move (.start 1), .move (.start 0), .move (.leaf 1 .step []), .move (.leaf 0 .step []),
    .move (.leaf 1 .step []), .move (.cancel 0), .move (.leaf 0 .step []), .move (.leaf 1 .step []),
    .move (.leaf 1 .step []), .move (.leaf 0 .step []), .move (.leaf 1 .step []),
    .move (.leaf 0 .step []), .move (.leaf 0 .step [])]

/-- What a session has come to where one execution was cancelled and another one was not. -/
def cancelledBeside? (sim : Simulator) : Option (Option Fault × Bool × Nat) :=
  (sim.engine.executions[1]?).map fun e =>
    (sim.engine.fault? 0, (e.result?.bind (·.toOption)).isSome && !e.cancelled,
      sim.engine.world.named)

/-- The execution that is not cancelled ends as it would alone. -/
theorem alone_of_session_cancelled : ∃ before started sim e result,
    (initial reportingServices default).after? firstStarted = some before ∧
    before.start "m" .null = .ok (started, 1) ∧ started.after? besideCancelled = some sim ∧
    sim.engine.fault? 0 = some .cancelled ∧ sim.engine.executions[1]? = some e ∧
    e.result? = some result ∧
    waiting.EndsAloneWith reportingServices "m" .null (e.topEvents, result) ∧
    ∀ course, waiting.EndsAloneWith reportingServices "m" .null course →
      (∀ report, course.2 ≠ .error (.executionAborted report)) →
        (e.topEvents, result) = course := by
  have hwaiting : ((initial reportingServices default).after? firstStarted).bind
      (·.machine? "m") = some waiting := by rfl
  have hcheck : ((initial reportingServices default).after? firstStarted).bind (fun before =>
      (before.start "m" .null).toOption.bind fun p =>
        (p.1.after? besideCancelled).bind fun sim => (cancelledBeside? sim).map fun found =>
          (p.2, found)) = some (1, some .cancelled, true, 4) := by decide +kernel
  obtain ⟨before, hbefore, hcheck⟩ := Option.bind_eq_some_iff.mp hcheck
  obtain ⟨⟨started, place⟩, hstart, hcheck⟩ := Option.bind_eq_some_iff.mp hcheck
  obtain ⟨sim, hsim, hcheck⟩ := Option.bind_eq_some_iff.mp hcheck
  obtain ⟨found, hfound, hcheck⟩ := Option.map_eq_some_iff.mp hcheck
  obtain ⟨rfl, rfl⟩ := Prod.mk.inj hcheck
  obtain ⟨e, he, hfound⟩ := Option.map_eq_some_iff.mp hfound
  simp only [Prod.mk.injEq, Bool.and_eq_true, Bool.not_eq_true'] at hfound
  obtain ⟨hfault, ⟨hended, hactive⟩, hnamed⟩ := hfound
  obtain ⟨output, hresult⟩ := Execution.exists_output hended
  have hmachine : before.machine? "m" = some waiting := by
    rw [hbefore] at hwaiting
    exact hwaiting
  have hstart : before.start "m" .null = .ok (started, 1) := by
    cases hcase : before.start "m" .null with
    | error fault =>
      rw [hcase] at hstart
      cases hstart
    | ok p =>
      rw [hcase] at hstart
      cases hstart
      rfl
  have hnames : sim.engine.world.NamesDistinct := by
    apply World.namesDistinct_of_le
    rw [hnamed]
    decide
  have hspares : ∀ r ∈ besideCancelled, r.Spares 1 := by
    simp [besideCancelled, Request.Spares]
  obtain ⟨e', alone, he', -, -, -, -, -, hends⟩ := alone_of_session steady_reportingServices hbefore
    hmachine rfl hstart hsim hspares hnames
  obtain rfl : e = e' := Option.some.inj (he.symm.trans he')
  obtain ⟨halone, hall⟩ := hends (.ok output) hresult hactive
  refine ⟨before, started, sim, e, .ok output, hbefore, hstart, hsim, hfault, he, hresult, halone,
    ?_⟩
  refine hall sequenced_reportingServices unlimited_waiting id (fun course course' h h' => ?_) nofun
  exact (eq_waitingCourse h).trans (eq_waitingCourse h').symm

end Simulator

end StateFlow
