import StateFlow.Proofs.Execution.Cancellation
import StateFlow.Proofs.Simulator.Aborting

/-!
# How cancelled executions end

An execution that has been cancelled before it finished, at whatever moment, goes on until the state
that it waits for comes to an end, and what it succeeds with is discarded.  What it fails with is
not: the driver looks at the cancellation only after a state that succeeded, so a failure that
arrives after the cancellation becomes the result (`Simulator.result_of_cancelled`).  That and the
panic of a function are the only ways in which a cancelled execution ends otherwise than with its
cancellation.

## Main definitions

* `Simulator.FailsItself`: in a session, the state that an execution waited for failed by itself

## Main results

* `Simulator.result?_of_failsItself`: a failure at the front is the result, cancelled or not
* `Simulator.exists_result_of_unwinds`: a cancelled execution can be brought to its end
* `Simulator.result_of_cancelled`: how a cancelled execution ends
-/

namespace StateFlow

namespace Simulator

/-- True of a move of the leaf at an address in the execution at a place. -/
def Request.movesLeaf (place : Nat) (address : List Nat) (r : Request) : Bool :=
  (r.leafAt? place).any (·.2 = address)

/-- In some move of a session the state that an execution waited for failed by itself. -/
def FailsItself (origin : Simulator) (rs : List Request) (place : Nat)
    (path : List (String × Nat)) (fault : Fault) : Prop :=
  ∃ before move sim e, before ++ [.move (.leaf place move (addressOf path))] <+: rs ∧
    origin.after? before = some sim ∧ sim.engine.executions[place]? = some e ∧
    e.FailsItself sim.engine.services sim.engine.world move path fault

variable {sim sim' : Simulator} {rs : List Request} {r : Request} {place : Nat} {e : Execution}
  {path : List (String × Nat)} {run : Run} {fault : Fault}

theorem Request.movesLeaf_iff {address : List Nat} :
    r.movesLeaf place address = true ↔ ∃ move, r.leafAt? place = some (move, address) := by
  unfold movesLeaf
  cases r.leafAt? place with
  | none => simp
  | some leaf =>
    obtain ⟨move, address'⟩ := leaf
    simp

theorem Request.movesLeaf_of_leafAt?_eq_none (h : r.leafAt? place = none) (address : List Nat) :
    r.movesLeaf place address = false := by
  rw [movesLeaf, h]
  rfl

theorem FailsItself.mono {rs' : List Request} (h : FailsItself sim rs place path fault)
    (hrs : rs <+: rs') : FailsItself sim rs' place path fault := by
  obtain ⟨before, move, sim₁, e, hbefore, h⟩ := h
  exact ⟨before, move, sim₁, e, hbefore.trans hrs, h⟩

/-! ## What every session keeps -/

/-- Every execution of a session is settled. -/
theorem settled_session {services : Services} {start : Timestamp}
    (h : (initial services start).after? rs = some sim) :
    ∀ (place : Nat) (e : Execution), sim.engine.executions[place]? = some e → e.Settled := by
  refine session_induction (P := fun _ sim => ∀ (place : Nat) (e : Execution),
    sim.engine.executions[place]? = some e → e.Settled) ?_ ?_ rs h
  · simp [initial, Engine.initial]
  · intro _ s r s' _ ih hr place e he
    rcases serve?_execution hr he with ⟨e₀, he₀, hchange⟩ | ⟨_, _, _, _, _, _, rfl⟩
    · exact (ih place e₀ he₀).change hchange
    · trivial

/-- A result stays. -/
theorem result?_after? {result : Except Fault Json} (h : sim.after? rs = some sim')
    (hresult : sim.engine.result? place = some result) :
    sim'.engine.result? place = some result := by
  refine session_induction (P := fun _ s => s.engine.result? place = some result) hresult ?_ rs h
  intro _ s r s' _ ih hr
  obtain ⟨e, he, hfinished⟩ := Option.bind_eq_some_iff.mp ih
  obtain ⟨e', he', hchange⟩ := serve?_execution_of hr he
  exact Option.bind_eq_some_iff.mpr ⟨e', he', hchange.result? hfinished⟩

/-! ## Failing by itself -/

/-- **A failure at the front is the result**, whether the execution was cancelled or not. -/
theorem result?_of_failsItself (h : sim.after? rs = some sim')
    (hfails : FailsItself sim rs place path fault) :
    sim'.engine.result? place = some (.error (fault.passedOn path)) := by
  obtain ⟨before, move, sim₁, e, ⟨rest, rfl⟩, hbefore, he, hfails⟩ := hfails
  rw [after?_append, after?_append, hbefore, Option.bind_some, after?] at h
  obtain ⟨sim₂, hsim₂, hrest⟩ := Option.bind_eq_some_iff.mp h
  obtain ⟨sim₃, hserve, hsim₃⟩ := Option.bind_eq_some_iff.mp hsim₂
  cases hsim₃
  refine result?_after? hrest ?_
  obtain ⟨engine, hmove, rfl⟩ := Option.map_eq_some_iff.mp hserve
  obtain ⟨e₀, w, e', he₀, hmoved, rfl⟩ := Engine.update?_eq_some hmove
  obtain rfl : e = e₀ := Option.some.inj (he.symm.trans he₀)
  have hlt : place < sim₁.engine.executions.length := (List.getElem?_eq_some_iff.mp he).1
  refine Option.bind_eq_some_iff.mpr ⟨e', ?_, hfails.result? hmoved⟩
  rw [List.getElem?_set_self hlt]

/-! ## Coming to an end -/

/-- A request leaves a cancelled execution waiting as before, or aborts it, or moves its front. -/
theorem unwinds_serve? (hr : sim.serve? r = some sim') (he : sim.engine.executions[place]? = some e)
    (h : e.Unwinds path run) :
    ∃ e', sim'.engine.executions[place]? = some e' ∧
      ((r.movesLeaf place (addressOf path) = false ∧ (e'.Unwinds path run ∨
        ∃ report, e'.result? = some (.error (.executionAborted report)))) ∨
      ∃ move, r = .move (.leaf place move (addressOf path)) ∧
        Execution.UnwindsTo sim.engine.services sim.engine.world move path run e e') := by
  obtain ⟨e', he', hchange⟩ := serve?_execution_of hr he
  refine ⟨e', he', ?_⟩
  rcases h.change hchange with ⟨hleaf, h'⟩ | ⟨move, hleaf, h'⟩ | ⟨hleaf, hresult⟩
  · refine .inl ⟨Bool.eq_false_iff.mpr fun hmoves => ?_, .inl h'⟩
    obtain ⟨move, heq⟩ := Request.movesLeaf_iff.mp hmoves
    exact hleaf move heq
  · exact .inr ⟨move, Request.leafAt?_eq_some_iff.mp hleaf, h'⟩
  · exact .inl ⟨Request.movesLeaf_of_leafAt?_eq_none hleaf _, .inr hresult⟩

/-- The simulator at a later time. -/
def later (sim : Simulator) (time : Nat) : Simulator :=
  { sim with engine := { sim.engine with
      world := { sim.engine.world with clock := max time sim.engine.world.clock } } }

theorem serve?_later (sim : Simulator) (time : Nat) :
    sim.serve? (.move (.wait (max time sim.engine.world.clock))) = some (sim.later time) := by
  have hle : sim.engine.world.clock ≤ max time sim.engine.world.clock := Nat.le_max_right _ _
  rw [serve?, Engine.move, if_pos hle]
  rfl

/-- The first step of an execution can always be taken. -/
theorem exists_serve?_start (he : sim.engine.executions[place]? = some e)
    (hphase : e.phase = .created) (h : e.Unwinds path run) :
    ∃ sim' e', sim.serve? (.move (.start place)) = some sim' ∧
      sim'.engine.executions[place]? = some e' ∧ e'.Unwinds path run ∧ e'.phase ≠ .created := by
  obtain ⟨e', hstart, hphase'⟩ := e.exists_start? hphase sim.engine.world
  have hlt : place < sim.engine.executions.length := (List.getElem?_eq_some_iff.mp he).1
  have hserve : sim.serve? (.move (.start place)) = some { sim with engine := { sim.engine with
      executions := sim.engine.executions.set place e' } } := by
    simp [serve?, Engine.move, Engine.update?, he, hstart]
  exact ⟨_, e', hserve, List.getElem?_set_self hlt, h.start? hstart, hphase'⟩

/-- The front of a cancelled execution that is running can move, after a wait. -/
theorem exists_front_move (he : sim.engine.executions[place]? = some e) (h : e.Unwinds path run)
    (hanswers : run.Answers) (hphase : e.phase ≠ .created) :
    ∃ rs sim' e', sim.after? rs = some sim' ∧ sim'.engine.executions[place]? = some e' ∧
      ((∃ run', e'.Unwinds path run' ∧ run'.weight < run.weight ∧ run'.Answers) ∨
        e'.result?.isSome) := by
  obtain ⟨time, hmoves⟩ := h.exists_move sim.engine.services hanswers hphase
  obtain ⟨move, hmove⟩ := hmoves (sim.later time).engine.world (Nat.le_max_left _ _)
  obtain ⟨⟨w, e₁⟩, hmoved⟩ := Option.isSome_iff_exists.mp hmove
  have hserve : ∃ sim', (sim.later time).serve? (.move (.leaf place move (addressOf path))) =
      some sim' := by
    have he₁ : (sim.later time).engine.executions[place]? = some e := he
    have hmoved₁ : e.moveAt? (sim.later time).engine.services (sim.later time).engine.world move
      (addressOf path) = some (w, e₁) := hmoved
    simp [serve?, Engine.move, Engine.update?, he₁, hmoved₁]
  obtain ⟨sim', hserve⟩ := hserve
  obtain ⟨e', he', hcases⟩ := unwinds_serve? hserve he h
  refine ⟨[.move (.wait (max time sim.engine.world.clock)),
    .move (.leaf place move (addressOf path))], sim', e', ?_, he', ?_⟩
  · rw [after?, serve?_later, Option.bind_some, after?, hserve]
    rfl
  · rcases hcases with ⟨hleaf, -⟩ | ⟨_, -, ⟨run', h', hweight, hanswers'⟩ | hresult |
      ⟨fault, -, hresult⟩⟩
    · rw [Request.movesLeaf_iff.mpr ⟨move, Request.leafAt?_eq_some_iff.mpr rfl⟩] at hleaf
      cases hleaf
    · exact .inl ⟨run', h', hweight, hanswers' hanswers⟩
    · exact .inr (by rw [hresult]; rfl)
    · exact .inr (by rw [hresult]; rfl)

/-- **A cancelled execution can be brought to its end**, if what it waits for answers. -/
theorem exists_result_of_unwinds (he : sim.engine.executions[place]? = some e)
    (h : e.Unwinds path run) (hanswers : run.Answers) :
    ∃ rs sim', sim.after? rs = some sim' ∧ (sim'.engine.result? place).isSome := by
  induction hweight : run.weight using Nat.strongRecOn generalizing sim e run with
  | ind weight ih =>
    have hrunning : ∀ (sim : Simulator) (e : Execution),
        sim.engine.executions[place]? = some e → e.Unwinds path run → e.phase ≠ .created →
        ∃ rs sim', sim.after? rs = some sim' ∧ (sim'.engine.result? place).isSome := by
      intro sim e he h hphase
      obtain ⟨rs, sim₁, e₁, hrs, he₁, ⟨run₁, h₁, hless, hanswers₁⟩ | hresult⟩ :=
        exists_front_move he h hanswers hphase
      · obtain ⟨rs', sim', hrs', hresult⟩ := ih run₁.weight (hweight ▸ hless) he₁ h₁ hanswers₁ rfl
        exact ⟨rs ++ rs', sim', by rw [after?_append, hrs, Option.bind_some, hrs'], hresult⟩
      · exact ⟨rs, sim₁, hrs, by rwa [Engine.result?, he₁, Option.bind_some]⟩
    by_cases hphase : e.phase = .created
    · obtain ⟨sim₁, e₁, hserve, he₁, h₁, hphase₁⟩ := exists_serve?_start he hphase h
      obtain ⟨rs, sim', hrs, hresult⟩ := hrunning sim₁ e₁ he₁ h₁ hphase₁
      exact ⟨_ :: rs, sim', by rw [after?, hserve, Option.bind_some, hrs], hresult⟩
    · exact hrunning sim e he h hphase

/-! ## The theorem -/

theorem FailsItself.ne_cancelled (h : FailsItself sim rs place path fault) :
    fault ≠ .cancelled := by
  obtain ⟨_, _, _, _, -, -, -, _, _, _, _, _, _, -, -, -, hne, -⟩ := h
  exact hne

/-- What has become of a cancelled execution in a session: it still waits, for less and less, or it
has ended, with its cancellation unless the state that it waited for failed by itself or the
execution was aborted. -/
def Unwinding (origin : Simulator) (place : Nat) (path : List (String × Nat)) (run : Run)
    (rs : List Request) (sim : Simulator) : Prop :=
  ∃ e, sim.engine.executions[place]? = some e ∧
    ((∃ run', e.Unwinds path run' ∧ (run.Answers → run'.Answers) ∧
      rs.countP (Request.movesLeaf place (addressOf path)) + run'.weight ≤ run.weight) ∨
    rs.countP (Request.movesLeaf place (addressOf path)) ≤ run.weight ∧
      (e.result? = some (.error .cancelled) ∨
        (∃ fault, FailsItself origin rs place path fault ∧
          e.result? = some (.error (fault.passedOn path))) ∨
        ∃ report, e.result? = some (.error (.executionAborted report))))

/-- Only an execution that has not finished makes moves. -/
theorem movesLeaf_of_result? (hr : sim.serve? r = some sim')
    (he : sim.engine.executions[place]? = some e) (hresult : e.result?.isSome)
    (address : List Nat) : r.movesLeaf place address = false := by
  refine Bool.eq_false_iff.mpr fun hmoves => ?_
  obtain ⟨move, hleaf⟩ := Request.movesLeaf_iff.mp hmoves
  obtain ⟨e', -, hchange⟩ := serve?_execution_of hr he
  rw [hleaf] at hchange
  cases hchange with
  | moved hmove =>
    obtain ⟨_, _, _, _, hphase, -⟩ := Execution.moveAt?_eq_some hmove
    rw [Execution.result?, hphase] at hresult
    cases hresult

theorem unwinding_serve? {origin : Simulator} (hrs : origin.after? rs = some sim)
    (h : Unwinding origin place path run rs sim) (hr : sim.serve? r = some sim') :
    Unwinding origin place path run (rs ++ [r]) sim' := by
  have hcount : (rs ++ [r]).countP (Request.movesLeaf place (addressOf path)) =
      rs.countP (Request.movesLeaf place (addressOf path)) +
        if r.movesLeaf place (addressOf path) then 1 else 0 := by
    rw [List.countP_append, List.countP_singleton]
  -- a move of the front is paid for by its weight, and after the end there are no more moves
  obtain ⟨e, he, ⟨run₁, h₁, hanswers, hweight⟩ | ⟨hweight, hresult⟩⟩ := h
  · obtain ⟨e', he', ⟨hleaf, h' | haborted⟩ | ⟨move, rfl, h'⟩⟩ := unwinds_serve? hr he h₁
    · refine ⟨e', he', .inl ⟨run₁, h', hanswers, ?_⟩⟩
      rw [hcount, hleaf]
      exact hweight
    · have hsame : (rs ++ [r]).countP (Request.movesLeaf place (addressOf path)) =
          rs.countP (Request.movesLeaf place (addressOf path)) := by
        rw [hcount, hleaf]
        rfl
      exact ⟨e', he', .inr ⟨by omega, .inr (.inr haborted)⟩⟩
    · have hmoves : (Request.move (.leaf place move (addressOf path))).movesLeaf place
          (addressOf path) = true :=
        Request.movesLeaf_iff.mpr ⟨move, Request.leafAt?_eq_some_iff.mpr rfl⟩
      rw [hmoves, if_pos rfl] at hcount
      have hpos := run₁.weight_pos
      refine ⟨e', he', ?_⟩
      rcases h' with ⟨run', h', hless, hanswers'⟩ | hresult | ⟨fault, hfails, hresult⟩
      · exact .inl ⟨run', h', fun ha => hanswers' (hanswers ha), by omega⟩
      · exact .inr ⟨by omega, .inl hresult⟩
      · have hfails' : FailsItself origin (rs ++ [.move (.leaf place move (addressOf path))]) place
            path fault := ⟨rs, move, sim, e, List.prefix_refl _, hrs, he, hfails⟩
        exact .inr ⟨by omega, .inr (.inl ⟨fault, hfails', hresult⟩)⟩
  · obtain ⟨e', he', hchange⟩ := serve?_execution_of hr he
    have hfinished : e.result?.isSome := by
      rcases hresult with hresult | ⟨fault, -, hresult⟩ | ⟨report, hresult⟩ <;> rw [hresult] <;> rfl
    rw [movesLeaf_of_result? hr he hfinished (addressOf path)] at hcount
    refine ⟨e', he', .inr ⟨by rw [hcount]; exact hweight, ?_⟩⟩
    rcases hresult with hresult | ⟨fault, hfails, hresult⟩ | ⟨report, hresult⟩
    · exact .inl (hchange.result? hresult)
    · exact .inr (.inl ⟨fault, hfails.mono (List.prefix_append rs [r]), hchange.result? hresult⟩)
    · exact .inr (.inr ⟨report, hchange.result? hresult⟩)

/-- **How a cancelled execution ends.**  Whenever an execution without a time-out is cancelled
before it has finished, and whatever happens afterwards in whatever order, it waits for the state at
one place, which makes a bounded number of moves, and comes to an end if that state does.  Its
result is the cancellation, and so is its last event, unless that state fails by itself: then its
fault is the result, as it is passed on by the Map states around it.  Or a function panics
meanwhile, which aborts the execution. -/
theorem result_of_cancelled {services : Services} {start : Timestamp} {rs₀ : List Request}
    {sim : Simulator} {place : Nat} {e : Execution}
    (h : (initial services start).after? rs₀ = some sim)
    (he : sim.engine.executions[place]? = some e) (hcancelled : e.cancelled = true)
    (hresult : e.result? = none) (htimeout : e.machine.timeout? = none) :
    ∃ path run, e.Front path run ∧ ∀ rs sim', sim.after? rs = some sim' →
      rs.countP (Request.movesLeaf place (addressOf path)) ≤ run.weight ∧
      ∃ e', sim'.engine.executions[place]? = some e' ∧
        match e'.result? with
        | none => run.Answers → ∃ rs' sim'', sim'.after? rs' = some sim'' ∧
          (sim''.engine.result? place).isSome
        | some result =>
          (result = .error .cancelled ∧ e'.events.getLast? = some .executionCancelled ∧
            ∀ path' fault, ¬ FailsItself sim rs place path' fault) ∨
          (∃ fault, FailsItself sim rs place path fault ∧ result = .error (fault.passedOn path) ∧
            result ≠ .error .cancelled ∧ e'.events.getLast? = some (.ending result)) ∨
          ∃ report, Panics sim rs place report ∧ result = .error (.executionAborted report) := by
  have hsettled := settled_session h place e he
  -- at the moment considered, the execution has a front; the session unwinds it
  obtain ⟨path, run, hfront⟩ := Execution.Front.exists_of_settled hsettled hresult htimeout
  have hinit : Unwinding sim place path run [] sim :=
    ⟨e, he, .inl ⟨run, ⟨hsettled, hcancelled, htimeout, hfront⟩, id, by simp⟩⟩
  refine ⟨path, run, hfront, fun rs sim' hrs => ?_⟩
  obtain ⟨e', he', hcases⟩ := session_induction (P := Unwinding sim place path run) hinit
    (fun rs s r s' hs ih hr => unwinding_serve? hs ih hr) rs hrs
  have hsettled' : e'.Settled := by
    have hall : (initial services start).after? (rs₀ ++ rs) = some sim' := by
      rw [after?_append, h, Option.bind_some, hrs]
    exact settled_session hall place e' he'
  rcases hcases with ⟨run', h', hanswers, hweight⟩ | ⟨hweight, hfinished⟩
  · refine ⟨by omega, e', he', ?_⟩
    rw [h'.front.result?]
    exact fun ha => exists_result_of_unwinds he' h' (hanswers ha)
  · refine ⟨hweight, e', he', ?_⟩
    rcases hfinished with hfinished | ⟨fault, hfails, hfinished⟩ | ⟨report, hfinished⟩
    · rw [hfinished]
      refine .inl ⟨rfl, hsettled'.getLast? hfinished rfl, fun path' fault hfails => ?_⟩
      have hfailed := result?_of_failsItself hrs hfails
      rw [Engine.result?, he', Option.bind_some, hfinished] at hfailed
      have heq : Fault.cancelled = fault.passedOn path' :=
        Except.error.inj (Option.some.inj hfailed)
      exact Fault.passedOn_ne_cancelled hfails.ne_cancelled path' heq.symm
    · rw [hfinished]
      have hunaborted : (fault.passedOn path).isAborted = false := by
        obtain ⟨_, _, _, _, -, -, -, hfails⟩ := hfails
        exact hfails.isAborted_passedOn
      refine .inr (.inl ⟨fault, hfails, rfl, fun heq => ?_,
        hsettled'.getLast? hfinished hunaborted⟩)
      exact Fault.passedOn_ne_cancelled hfails.ne_cancelled path (Except.error.inj heq)
    · rw [hfinished]
      refine .inr (.inr ⟨report, panics_of_aborted hrs (fun e₀ he₀ => ?_) he' hfinished, rfl⟩)
      rwa [Option.some.inj (he₀.symm.trans he)]

/-! ### A task that fails after the cancellation -/

/-- Services whose one function fails after ten milliseconds. -/
def failingServices : Services :=
  .standard (Bindings.none.insert "m" "A" ⟨"f", "main"⟩) fun _ =>
    some fun _ _ _ => .pause 10 (.answer (.error "boom"))

/-- The execution is cancelled while the function sleeps. -/
def cancelledCall : List Request :=
  [.register "m" calling, .start "m" .null, .move (.start 0), .move (.leaf 0 .step []),
    .move (.leaf 0 .step []), .move (.wait 5), .move (.cancel 0)]

/-- The function wakes up and fails. -/
def failedCall : List Request :=
  [.move (.wait 10), .move (.leaf 0 .step []), .move (.leaf 0 .step [])]

theorem exists_failedCall :
    ∃ sim e sim', (initial failingServices default).after? cancelledCall = some sim ∧
      sim.engine.executions[0]? = some e ∧ e.cancelled = true ∧ e.result? = none ∧
      e.machine.timeout? = none ∧ sim.after? failedCall = some sim' ∧
      sim'.engine.result? 0 = some (.error (.taskFailed "A" "boom")) := by
  have hcheck : (((initial failingServices default).after? cancelledCall).bind fun sim =>
      (sim.engine.executions[0]?).bind fun e => (sim.after? failedCall).bind fun sim' =>
        (sim'.engine.fault? 0).map fun fault =>
          (e.cancelled, e.result?.isNone, e.machine.timeout?, fault)) =
      some (true, true, none, .taskFailed "A" "boom") := by decide +kernel
  obtain ⟨sim, hsim, hcheck⟩ := Option.bind_eq_some_iff.mp hcheck
  obtain ⟨e, he, hcheck⟩ := Option.bind_eq_some_iff.mp hcheck
  obtain ⟨sim', hsim', hcheck⟩ := Option.bind_eq_some_iff.mp hcheck
  obtain ⟨fault, hfault, hcheck⟩ := Option.map_eq_some_iff.mp hcheck
  obtain ⟨hcancelled, hresult, htimeout, rfl⟩ :
      e.cancelled = true ∧ e.result?.isNone = true ∧ e.machine.timeout? = none ∧
        fault = .taskFailed "A" "boom" := by
    simpa only [Prod.mk.injEq] using hcheck
  exact ⟨sim, e, sim', hsim, he, hcancelled, Option.isNone_iff_eq_none.mp hresult, htimeout, hsim',
    Engine.fault?_eq_some_iff.mp hfault⟩

/-- A cancelled execution does not always end with its cancellation. -/
theorem not_always_cancelled :
    ¬ ∀ (services : Services) (start : Timestamp) (rs₀ rs : List Request) (sim sim' : Simulator)
      (place : Nat) (e : Execution) (result : Except Fault Json),
      (initial services start).after? rs₀ = some sim → sim.engine.executions[place]? = some e →
      e.cancelled = true → e.result? = none → e.machine.timeout? = none →
      sim.after? rs = some sim' → sim'.engine.result? place = some result →
      result = .error .cancelled := by
  intro h
  obtain ⟨sim, e, sim', hsim, he, hcancelled, hresult, htimeout, hsim', hfailed⟩ :=
    exists_failedCall
  have heq := h _ _ _ _ sim sim' 0 e _ hsim he hcancelled hresult htimeout hsim' hfailed
  cases heq

/-- The task failed by itself, and nothing else could have kept the cancellation from the result. -/
theorem result_of_cancelled_failedCall :
    ∃ sim e path run fault, (initial failingServices default).after? cancelledCall = some sim ∧
      sim.engine.executions[0]? = some e ∧ e.Front path run ∧
      FailsItself sim failedCall 0 path fault ∧ fault.passedOn path = .taskFailed "A" "boom" := by
  obtain ⟨sim, e, sim', hsim, he, hcancelled, hresult, htimeout, hsim', hfailed⟩ :=
    exists_failedCall
  obtain ⟨path, run, hfront, hruns⟩ := result_of_cancelled hsim he hcancelled hresult htimeout
  obtain ⟨-, e', he', hcases⟩ := hruns failedCall sim' hsim'
  have hfailed' : e'.result? = some (.error (.taskFailed "A" "boom")) := by
    rwa [Engine.result?, he', Option.bind_some] at hfailed
  rw [hfailed'] at hcases
  rcases hcases with ⟨heq, -⟩ | ⟨fault, hfails, heq, -⟩ | ⟨report, -, heq⟩
  · cases heq
  · exact ⟨sim, e, path, run, fault, hsim, he, hfront, hfails, (Except.error.inj heq).symm⟩
  · cases heq

end Simulator

end StateFlow
