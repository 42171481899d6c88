import StateFlow.Proofs.Execution.HandingOn
import StateFlow.Proofs.Simulator.Reports

/-!
# What decides the outcome of a callback task

A callback task hands its token to its function and then waits for a report.  Anybody may report for
the token at any moment, the function itself included, before or after it has returned; what the
function returns counts for nothing.  The first report decides, and all others are without effect: a
success is handed on as the result of the task, a failure and a revocation fail it
(`Simulator.callbackMoves_of_reports`).

## Main definitions

* `Settlement.Decides`: what a report makes of a task that waits for it
* `Behaviour.Fails`: a function fails by its next step
* `TaskWork.CallbackMoves`: what a move makes of a callback task after some reports

## Main results

* `TaskWork.callbackMoves_of_moveLeaf`: the moves of a callback task whose ticket is known
* `Simulator.callbackMoves_of_reports`: the same for every callback task of every session
-/

namespace StateFlow

/-! ## Reports and results -/

/-- What a report makes of the task of a state that waits for it: an output is handed on, with null
counted as `{}`. -/
inductive Settlement.Decides (task : TaskState) (state : String) (input : Json) (token : String) :
    Settlement → Run → Prop
  | success {output : Json} {run : Run}
      (h : Run.HandsOn task.result task.output task.transition state input
        (if output.isNull then .object [] else output) run) :
      Decides task state input token (.success output) run
  | failure {error : String} :
      Decides task state input token (.failure error none)
        (.ended (.error (.taskFailed state error)))
  | failureOf {error cause : String} :
      Decides task state input token (.failure error (some cause))
        (.ended (.error (.taskFailed state s!"{error}: {cause}")))
  | revoke : Decides task state input token .revoke
      (.ended (.error (.taskFailed state s!"task token '{token}' was revoked")))

/-- A task that waits finds nothing before the first report. -/
theorem awaitedResult?_fresh (state token : String) :
    awaitedResult? state token Ticket.fresh.reception = none := rfl

/-- After the first report a task that waits finds a result, and this report decides what comes of
it. -/
theorem exists_awaitedResult? (state token : String) (first : Settlement) :
    ∃ result, awaitedResult? state token (Ticket.fresh.settled first).reception = some result ∧
      ∀ (task : TaskState) (input : Json), first.Decides task state input token
        (.ofOutcome state (result.bind (task.outcome input))) := by
  cases first with
  | success output =>
    exact ⟨.ok output, rfl, fun task input => .success (task.handsOn_outcome state input output)⟩
  | failure error cause? =>
    cases cause? with
    | none => exact ⟨_, rfl, fun _ _ => .failure⟩
    | some cause => exact ⟨_, rfl, fun _ _ => .failureOf⟩
  | revoke => exact ⟨_, rfl, fun _ _ => .revoke⟩

/-! ## Moves of a callback task -/

/-- A function fails by its next step: with a message of its own, or because one of its reports is
refused. -/
def Behaviour.Fails (s : Situation) (message : String) : Behaviour → Prop
  | .answer (.error own) => own = message
  | .settle token settlements _ =>
    ∃ fault, (s.world.tokens.settleAll token settlements).2 = .error fault ∧
      fault.message = message
  | _ => False

/-- A function that was given a token does not end its task but by failing. -/
theorem Behaviour.fails_of_done {b : Behaviour} {state : String} {token? : Option String}
    {s s' : Situation} {result : Except Fault Json} (htoken : token?.isSome)
    (h : b.advance state token? s = some (s', .done result)) :
    ∃ message, b.Fails s message ∧ result = .error (.taskFailed state message) := by
  cases b with
  | answer outcome =>
    cases outcome with
    | ok output =>
      simp only [advance, htoken, if_true] at h
      cases h
    | error message =>
      cases h
      exact ⟨message, rfl, rfl⟩
  | pause milliseconds rest => cases milliseconds <;> cases h
  | cancel rest => cases h
  | settle token settlements rest =>
    simp only [advance] at h
    split at h
    · cases h
    · next fault hrefused =>
      cases h
      exact ⟨fault.message, ⟨fault, hrefused, rfl⟩, rfl⟩
  | settleLater milliseconds token settlements rest => cases h
  | hang | panic => cases h

/-- What a move makes of a callback task after the reports for its token. -/
inductive TaskWork.CallbackMoves (work : TaskWork) (name : String) (input : Json) (token : String)
    (s : Situation) (reports : List Settlement) : Run → Prop
  /-- Its function goes on, or has returned; the task keeps its token and its deadline. -/
  | goesOn (hprogress : work.progress ≠ .awaiting) (progress : Progress) :
      CallbackMoves work name input token s reports
        (.working name input (.task { work with progress }))
  | fails {b : Behaviour} {message : String} (hprogress : work.progress = .acting b)
      (h : b.Fails s message) :
      CallbackMoves work name input token s reports (.ended (.error (.taskFailed name message)))
  /-- Its function has returned, and the first report decides. -/
  | decided {first : Settlement} {later : List Settlement} {run : Run}
      (hprogress : work.progress = .awaiting) (h : reports = first :: later)
      (hrun : first.Decides work.task name input token run) :
      CallbackMoves work name input token s reports run

namespace TaskWork

variable {work : TaskWork} {name token : String} {input : Json} {s s' : Situation}
  {reports : List Settlement} {scope : Scope} {move : Run.LeafMove} {m : Machine}
  {item? : Option Nat} {run' : Run}

/-- What a task that waits finds in its ticket. -/
theorem peek_eq_of_ticket? (h : s.world.tokens.ticket? token =
    some (Ticket.fresh.settledAll reports)) :
    s.world.tokens.peek token = (Ticket.fresh.settledAll reports).reception := by
  rw [Tokens.peek_eq, h]
  rfl

/-- **A callback task goes on until its function returns, and then the first report decides.** -/
theorem callbackMoves_of_moveLeaf (htoken : work.token? = some token)
    (hticket : s.world.tokens.ticket? token = some (Ticket.fresh.settledAll reports))
    (hactive : s.cancelled = false) (htimely : move = .expire → work.isDue s.world.clock = false)
    (hmove : Run.moveLeaf scope move m item? s (.working name input (.task work)) =
      some (s', run')) :
    work.CallbackMoves name input token s reports run' := by
  cases Run.moves_of_moveLeaf hmove with
  | @going _ _ _ _ progress h =>
    refine .goesOn ?_ progress
    intro hawaiting
    cases h with
    | acting hprogress _ =>
      rw [hawaiting] at hprogress
      cases hprogress
    | awake hprogress _ =>
      rw [hawaiting] at hprogress
      cases hprogress
  | done h =>
    cases h with
    | acting hprogress h =>
      have hsome : work.token?.isSome := by
        rw [htoken]
        rfl
      obtain ⟨message, hfails, rfl⟩ := Behaviour.fails_of_done hsome h
      exact .fails hprogress hfails
    | completed hprogress htoken' h =>
      obtain rfl := Option.some.inj (htoken.symm.trans htoken')
      rw [peek_eq_of_ticket? hticket] at h
      cases reports with
      | nil =>
        rw [Ticket.settledAll_nil, awaitedResult?_fresh] at h
        cases h
      | cons first later =>
        obtain ⟨result', hresult', hdecides⟩ := exists_awaitedResult? name token first
        rw [← Ticket.settledAll_cons _ first later, h] at hresult'
        obtain rfl := Option.some.inj hresult'
        exact .decided hprogress rfl (hdecides work.task input)
    | interrupted _ hcancelled =>
      rw [hactive] at hcancelled
      cases hcancelled
  | timedOut hdue hexpire =>
    rw [htimely hexpire] at hdue
    cases hdue
  | heeded hcancelled =>
    rw [hactive] at hcancelled
    cases hcancelled

/-- A task whose function has returned takes the first report, even when its deadline has come. -/
theorem isSome_advance_of_reports (hprogress : work.progress = .awaiting)
    (htoken : work.token? = some token)
    (hticket : s.world.tokens.ticket? token = some (Ticket.fresh.settledAll reports))
    (hreports : reports ≠ []) : (work.advance name s).isSome := by
  cases reports with
  | nil => exact absurd rfl hreports
  | cons first later =>
    obtain ⟨result, hresult, -⟩ := exists_awaitedResult? name token first
    rw [← Ticket.settledAll_cons _ first later, ← peek_eq_of_ticket? hticket] at hresult
    simp [advance, hprogress, htoken, hresult]

end TaskWork

/-! ## Leaves of a run -/

/-- The tokens of a leaf are among those of the run. -/
theorem Frame.mem_tokens_of_at? {f leaf : Frame} {address : List Nat} {token : String}
    (hat : f.at? address = some leaf) (htoken : token ∈ leaf.run.tokens) :
    token ∈ f.run.tokens := by
  induction address generalizing f with
  | nil =>
    obtain rfl : f = leaf := Option.some.inj hat
    exact htoken
  | cons index address ih =>
    obtain ⟨name, input, frame, delivered, active, waiting, old, hrun, hold, hat⟩ :=
      Frame.at?_cons hat
    obtain ⟨before, after, heq, -⟩ := Run.exists_activeTokens_eq hold
    have hmem : token ∈ old.tokens := ih hat
    rw [hrun]
    simp only [Run.tokens, Run.workTokens, heq, List.mem_append]
    exact .inl (.inr hmem)

/-- A leaf can make its moves within the run. -/
theorem Frame.isSome_moveAt {f leaf : Frame} {address : List Nat} {scope : Scope}
    {move : Run.LeafMove} {s : Situation} (hat : f.at? address = some leaf)
    (hleaf : (Run.moveLeaf scope move leaf.machine leaf.item? s leaf.run).isSome) :
    (Run.moveAt scope move f.machine f.item? s address f.run).isSome := by
  induction address generalizing f with
  | nil =>
    obtain rfl : f = leaf := Option.some.inj hat
    exact hleaf
  | cons index address ih =>
    obtain ⟨name, input, frame, delivered, active, waiting, old, hrun, hold, hat⟩ :=
      Frame.at?_cons hat
    obtain ⟨⟨s₁, new⟩, hnew⟩ := Option.isSome_iff_exists.mp (ih hat)
    rw [hrun]
    simp [Run.moveAt, hold, hnew]

/-! ## Sessions -/

namespace Simulator

variable {sim : Simulator} {rs : List Request} {place : Nat} {e : Execution} {root leaf : Frame}
  {address : List Nat} {name token : String} {input : Json} {work : TaskWork}

theorem mem_tokens_of_leaf (he : sim.engine.executions[place]? = some e)
    (hroot : e.frame? = some root) (hat : root.at? address = some leaf)
    (htoken : token ∈ leaf.run.tokens) : token ∈ sim.engine.tokens := by
  refine Engine.mem_tokens he ?_
  have hmem : token ∈ root.run.tokens := Frame.mem_tokens_of_at? hat htoken
  unfold Execution.frame? at hroot
  split at hroot
  · next run deadline? hphase =>
    obtain rfl := Option.some.inj hroot
    simpa only [Execution.tokens, hphase] using hmem
  · cases hroot

/-- A leaf can make its moves within the simulator. -/
theorem isSome_serve?_leaf (he : sim.engine.executions[place]? = some e)
    (hroot : e.frame? = some root) (hat : root.at? address = some leaf) {move : Run.LeafMove}
    (hleaf : (Run.moveLeaf ⟨sim.engine.services, e.identity⟩ move leaf.machine leaf.item?
      (e.situation sim.engine.world) leaf.run).isSome) :
    (sim.serve? (.move (.leaf place move address))).isSome := by
  have hmoved := Frame.isSome_moveAt hat hleaf
  unfold Execution.frame? at hroot
  split at hroot
  · next run deadline? hphase =>
    obtain rfl := Option.some.inj hroot
    obtain ⟨⟨s, run'⟩, hmove⟩ := Option.isSome_iff_exists.mp hmoved
    simp only at hmove
    simp [serve?, Engine.move, Engine.update?, he, Execution.moveAt?, hphase, hmove]
  · cases hroot

/-- **The first report decides.**  In every session with distinct names, for every callback task at
work that is not cancelled: its token is open exactly as long as nothing was reported for it; as
long as its time is not up, a move makes it go on or fail with its function, and after the function
has returned its outcome is what the first report makes of it; and as soon as there is a report
then, it can take it, and it no longer times out. -/
theorem callbackMoves_of_reports {services : Services} {start : Timestamp}
    (h : (initial services start).after? rs = some sim)
    (hnames : sim.engine.world.NamesDistinct)
    (he : sim.engine.executions[place]? = some e) (hroot : e.frame? = some root)
    (hat : root.at? address = some leaf) (hrun : leaf.run = .working name input (.task work))
    (htoken : work.token? = some token) (hactive : e.cancelled = false) :
    (∀ completion, (sim.engine.world.tokens.complete token completion).2 = .ok () ↔
      (initial services start).reports token rs = []) ∧
    (∀ move s' run', (move = .expire → work.isDue sim.engine.world.clock = false) →
      Run.moveLeaf ⟨sim.engine.services, e.identity⟩ move leaf.machine leaf.item?
        (e.situation sim.engine.world) leaf.run = some (s', run') →
      work.CallbackMoves name input token (e.situation sim.engine.world)
        ((initial services start).reports token rs) run') ∧
    (work.progress = .awaiting → (initial services start).reports token rs ≠ [] →
      (sim.serve? (.move (.leaf place .step address))).isSome ∧
      Run.moveLeaf ⟨sim.engine.services, e.identity⟩ .expire leaf.machine leaf.item?
        (e.situation sim.engine.world) leaf.run = none) := by
  have hmem : token ∈ sim.engine.tokens := by
    refine mem_tokens_of_leaf he hroot hat ?_
    rw [hrun]
    simp [Run.tokens, Run.workTokens, htoken]
  have hticket := (reported_session h hnames).held token hmem
  refine ⟨fun completion => ?_, fun move s' run' htimely hmove => ?_, fun hprogress hreports => ?_⟩
  · rw [Tokens.complete_answer, hticket]
    cases (initial services start).reports token rs with
    | nil => simp [Ticket.settledAll, Ticket.fresh]
    | cons first later => simp [Ticket.settledAll_cons]
  · rw [hrun] at hmove
    exact TaskWork.callbackMoves_of_moveLeaf htoken hticket hactive htimely hmove
  · have hadvance : (work.advance name (e.situation sim.engine.world)).isSome :=
      TaskWork.isSome_advance_of_reports hprogress htoken hticket hreports
    constructor
    · refine isSome_serve?_leaf he hroot hat ?_
      rw [hrun]
      simpa [Run.moveLeaf, Run.stepLeaf, TaskWork.step] using hadvance
    · rw [hrun]
      simp [Run.moveLeaf, Run.expireLeaf, TaskWork.expire, Option.isSome_iff_ne_none.mp hadvance]

/-! ### A success that is reported before the function returns -/

/-- A callback task with a time-out, whose result goes into a field. -/
def mergingTask : TaskState :=
  ⟨none, "f.waitForTaskToken", .absent, some (.object [("FunctionName", .string "f")]),
    .path "$.out", .absent, some 60, ⟨none, true⟩⟩

/-- A machine with this task alone. -/
def merging : Machine := ⟨none, "A", [("A", .task mergingTask)], none⟩

/-- Services whose one function returns after ten milliseconds. -/
def returningServices : Services :=
  .standard (Bindings.none.insert "m" "A" ⟨"f", "main"⟩) fun _ =>
    some fun _ input _ => .pause 10 (.answer (.ok input))

/-- While the function sleeps a success is reported and then a failure; then it returns. -/
def earlyReports : List Request :=
  [.register "m" merging, .start "m" (.object [("a", .ofNat 1)]), .move (.start 0),
    .move (.leaf 0 .step []), .move (.leaf 0 .step []),
    .move (.settle (freshName 1) (.success .null)),
    .move (.settle (freshName 1) (.failure "late" none)), .move (.wait 10),
    .move (.leaf 0 .step []), .move (.leaf 0 .step [])]

/-- The early output is handed on, null as `{}`, and neither the failure nor what the function has
returned. -/
theorem callbackMoves_of_reports_early :
    ∃ sim e root leaf work,
      (initial returningServices default).after? earlyReports = some sim ∧
      sim.engine.executions[0]? = some e ∧ e.frame? = some root ∧ root.at? [] = some leaf ∧
      leaf.run = .working "A" (.object [("a", .ofNat 1)]) (.task work) ∧
      work.deadline? = some 60000 ∧
      (∀ move s' run', Run.moveLeaf ⟨sim.engine.services, e.identity⟩ move leaf.machine leaf.item?
        (e.situation sim.engine.world) leaf.run = some (s', run') →
          run' = .leaving "A" ⟨none, true, .object [("a", .ofNat 1), ("out", .object [])]⟩) ∧
      (sim.serve? (.move (.leaf 0 .step []))).isSome := by
  have hcheck : (((initial returningServices default).after? earlyReports).bind fun sim =>
      (sim.engine.executions[0]?).bind fun e => e.frame?.bind fun root =>
        (root.at? []).map fun leaf =>
          (leaf.run, e.cancelled, sim.engine.world.named, sim.engine.world.clock)) =
      some (.working "A" (.object [("a", .ofNat 1)])
        (.task ⟨mergingTask, .awaiting, some (freshName 1), some 60000⟩), false, 2, 10) := rfl
  have hreports : (initial returningServices default).reports (freshName 1) earlyReports =
      [.success .null, .failure "late" none] := rfl
  obtain ⟨sim, hsim, hcheck⟩ := Option.bind_eq_some_iff.mp hcheck
  obtain ⟨e, he, hcheck⟩ := Option.bind_eq_some_iff.mp hcheck
  obtain ⟨root, hroot, hcheck⟩ := Option.bind_eq_some_iff.mp hcheck
  obtain ⟨leaf, hat, hcheck⟩ := Option.map_eq_some_iff.mp hcheck
  simp only [Prod.mk.injEq] at hcheck
  obtain ⟨hrun, hactive, hnamed, hclock⟩ := hcheck
  have hnames : sim.engine.world.NamesDistinct := by
    refine World.namesDistinct_of_le ?_
    rw [hnamed]
    decide
  obtain ⟨-, hmoves, hstep⟩ := callbackMoves_of_reports hsim hnames he hroot hat hrun rfl hactive
  rw [hreports] at hmoves hstep
  refine ⟨sim, e, root, leaf, _, hsim, he, hroot, hat, hrun, rfl, ?_, (hstep rfl nofun).1⟩
  intro move s' run' hmove
  have htimely : move = .expire →
      (⟨mergingTask, .awaiting, some (freshName 1), some 60000⟩ : TaskWork).isDue
        sim.engine.world.clock = false := by
    rw [hclock]
    exact fun _ => rfl
  cases hmoves move s' run' htimely hmove with
  | goesOn hne _ => exact absurd rfl hne
  | fails hacting _ => cases hacting
  | decided _ heq hrun' =>
    cases heq
    cases hrun' with
    | success h => exact h.eq (.departs rfl rfl)

end Simulator

end StateFlow
