import StateFlow.Proofs.Execution.Course

/-!
# Runs whose course can be foretold

For the course of a run to be settled a function must not race with its own reports: once it has
left a report for later, it makes no others (`Behaviour.Sequenced`).  Then the reports for its token
come in one order, those that were made and then the one that was left (`World.Awaits`), and a step
of the function follows what its task comes to by them.

## Main definitions

* `Behaviour.Sequenced`, `Services.Sequenced`: functions that do not race with their own reports
* `World.Awaits`: the reports for a token are those that were made and the one that was left
* `Frame.InOrder`: a run whose tokens await their reports and whose items are started in order

## Main results

* `TaskWork.Advances.verdict?`: a step of a task follows what the task comes to
* `Frame.Everywhere.inOrder_of_awaits`: what keeps a run in order
* `State.begin_snd`: the work of a state begins the same way at the same time
-/

namespace StateFlow

/-! ## Functions that do not race with their own reports -/

/-- The function makes no reports. -/
def Behaviour.Silent : Behaviour → Prop
  | answer _ | hang | panic _ => True
  | pause _ rest | cancel rest => rest.Silent
  | settle _ _ _ | settleLater _ _ _ _ => False

/-- A report that the function leaves for later is its last. -/
def Behaviour.Sequenced : Behaviour → Prop
  | answer _ | hang | panic _ => True
  | pause _ rest | cancel rest | settle _ _ rest => rest.Sequenced
  | settleLater _ _ _ rest => rest.Silent

theorem Behaviour.Silent.sequenced {b : Behaviour} (h : b.Silent) : b.Sequenced := by
  induction b with
  | answer outcome => trivial
  | hang | panic => trivial
  | pause milliseconds rest ih => exact ih h
  | cancel rest ih => exact ih h
  | settle token settlements rest => exact h.elim
  | settleLater milliseconds token settlements rest => exact h.elim

namespace Progress

/-- The function makes no more reports. -/
def Silent : Progress → Prop
  | acting b | paused _ b => b.Silent
  | awaiting => True

/-- A report that the function leaves for later is its last. -/
def Sequenced : Progress → Prop
  | acting b | paused _ b => b.Sequenced
  | awaiting => True

theorem Silent.sequenced {progress : Progress} (h : progress.Silent) : progress.Sequenced := by
  cases progress with
  | acting b => exact Behaviour.Silent.sequenced h
  | paused wakeAt b => exact Behaviour.Silent.sequenced h
  | awaiting => trivial

end Progress

/-- Functions of which a report that they leave for later is the last. -/
def Services.Sequenced (services : Services) : Prop :=
  ∀ binding handler, services.invoker binding = some handler →
    ∀ earlier input context, (handler earlier input context).Sequenced

/-! ## The reports for a token -/

/-- The reports that are left for later for a token. -/
def World.jobsFor (w : World) (token : String) : List Job := w.jobs.filter (·.token = token)

/-- The reports for a token are those that were made for it and, if its function makes no others,
one that was left for later. -/
inductive World.Awaits (w : World) (reported : List Settlement) (token : String)
    (progress : Progress) : Prop
  | made (hticket : w.tokens.ticket? token = some (Ticket.fresh.settledAll reported))
      (hjobs : w.jobsFor token = []) (hprogress : progress.Sequenced)
  | left (made : List Settlement) (job : Job)
      (hticket : w.tokens.ticket? token = some (Ticket.fresh.settledAll made))
      (hjobs : w.jobsFor token = [job]) (hreported : reported = made ++ job.settlements)
      (hprogress : progress.Silent)

/-- Whoever does not hold a token, and is not given it, leaves no reports for it. -/
theorem World.Serves.jobsFor_of_not_mem {w w' : World} {held held' : List String} {token : String}
    (h : w.Serves w' held held') (htoken : token ∉ held) : w'.jobsFor token = w.jobsFor token := by
  obtain ⟨added, hadded, hheld⟩ := h.minds.jobs
  have hnone : added.filter (·.token = token) = [] := by
    apply List.filter_eq_nil_iff.mpr
    intro job hjob
    simp only [decide_eq_true_eq]
    rintro rfl
    exact htoken (hheld job hjob)
  rw [jobsFor, hadded, List.filter_append, hnone, List.append_nil]
  rfl

namespace World.Awaits

variable {w w' : World} {reported : List Settlement} {token : String}
  {progress progress' : Progress}

/-- Only the ticket of the token and what is left for it count. -/
theorem congr (h : w.Awaits reported token progress)
    (hticket : w'.tokens.ticket? token = w.tokens.ticket? token)
    (hjobs : w'.jobsFor token = w.jobsFor token) : w'.Awaits reported token progress := by
  cases h with
  | made hticket' hjobs' hprogress =>
    exact .made (hticket.trans hticket') (hjobs.trans hjobs') hprogress
  | left made job hticket' hjobs' hreported hprogress =>
    exact .left made job (hticket.trans hticket') (hjobs.trans hjobs') hreported hprogress

theorem proceed (h : w.Awaits reported token progress)
    (hsequenced : progress.Sequenced → progress'.Sequenced)
    (hsilent : progress.Silent → progress'.Silent) : w.Awaits reported token progress' := by
  cases h with
  | made hticket hjobs hprogress => exact .made hticket hjobs (hsequenced hprogress)
  | left made job hticket hjobs hreported hprogress =>
    exact .left made job hticket hjobs hreported (hsilent hprogress)

/-- A report that was left for later is made. -/
theorem report (h : w.Awaits reported token progress) {n : Nat} {job : Job}
    (hjob : w.jobs[n]? = some job) :
    World.Awaits { w with
      tokens := (w.tokens.settleAll job.token job.settlements).1
      jobs := w.jobs.eraseIdx n } reported token progress := by
  by_cases hother : job.token = token
  · have hmem : job ∈ w.jobsFor token :=
      List.mem_filter.mpr ⟨List.mem_of_getElem? hjob, by simpa using hother⟩
    cases h with
    | made _ hjobs _ =>
      rw [hjobs] at hmem
      cases hmem
    | left made job' hticket hjobs hreported hprogress =>
      rw [hjobs] at hmem
      obtain rfl : job = job' := List.mem_singleton.mp hmem
      refine .made ?_ ?_ hprogress.sequenced
      · have hlistening : (Ticket.fresh.settledAll made).listening = true := by
          rw [Ticket.listening_settledAll]
          rfl
        have hticket' := w.tokens.ticket?_settleAll token hticket hlistening job.settlements
        rw [← Ticket.settledAll_append, ← hreported] at hticket'
        rw [hother]
        exact hticket'
      · have hperm := (perm_cons_eraseIdx hjob).filter (·.token = token)
        rw [List.filter_cons_of_pos (by simpa using hother)] at hperm
        have hleft : w.jobs.filter (·.token = token) = [job] := hjobs
        rw [hleft] at hperm
        exact List.nil_perm.mp hperm.cons_inv
  · refine h.congr (Tokens.ticket?_settleAll_of_ne _ hother _) ?_
    obtain ⟨hlt, rfl⟩ := List.getElem?_eq_some_iff.mp hjob
    have hjobs : w.jobs = w.jobs.take n ++ w.jobs[n] :: w.jobs.drop (n + 1) := by
      rw [List.getElem_cons_drop, List.take_append_drop]
    rw [World.jobsFor, World.jobsFor]
    conv_rhs => rw [hjobs]
    rw [List.eraseIdx_eq_take_drop_succ, List.filter_append, List.filter_append,
      List.filter_cons_of_neg (by simpa using hother)]

/-- What is found for a token decides, whatever is left for it. -/
theorem reportedResult?_eq (h : w.Awaits reported token progress) {name : String}
    {result : Except Fault Json}
    (hresult : awaitedResult? name token (w.tokens.peek token) = some result) :
    reportedResult? name token reported = some result := by
  have hfirst : ∀ made, w.tokens.ticket? token = some (Ticket.fresh.settledAll made) →
      ∃ first later, made = first :: later := by
    intro made hticket
    cases made with
    | nil =>
      rw [Tokens.peek_eq, hticket] at hresult
      cases hresult
    | cons first later => exact ⟨first, later, rfl⟩
  cases h with
  | made hticket _ _ =>
    rw [Tokens.peek_eq, hticket] at hresult
    exact hresult
  | left made job hticket _ hreported _ =>
    obtain ⟨first, later, rfl⟩ := hfirst made hticket
    rw [Tokens.peek_eq, hticket] at hresult
    rw [reportedResult?, hreported, List.cons_append, Ticket.settledAll_cons]
    rwa [Ticket.settledAll_cons] at hresult

end World.Awaits

/-! ## Steps of a task -/

theorem Tokens.ticket?_single (token : String) (ticket : Ticket) :
    (Tokens.single token ticket).ticket? token = some ticket := by
  simp [single, ticket?, Entries.get?]

/-- A step follows what a task was to come to: the task will come to it, by the reports that are
then made or left, or has done so. -/
def TaskAdvance.Follows (w : World) (name : String) (token? : Option String)
    (reported : List Settlement) (verdict? : Option (Except Fault Json)) : TaskAdvance → Prop
  | going progress => ∃ reported', (token? = none → reported' = reported) ∧
      (∀ token ∈ token?, w.Awaits reported' token progress) ∧
      progress.verdict? name token? reported' = verdict?
  | done result => verdict? = some result

/-- A function whose reports are accepted goes on with them made, and fails if they are refused. -/
theorem Behaviour.advance_settle_verdict? {name token : String} {settlements : List Settlement}
    {rest : Behaviour} {s s' : Situation} {adv : TaskAdvance} {reported : List Settlement}
    (hawaits : s.world.Awaits reported token (.acting (.settle token settlements rest)))
    (h : (settle token settlements rest).advance name (some token) s = some (s', adv)) :
    adv.Follows s'.world name (some token) reported
      ((settle token settlements rest).verdict? name (some token) reported) := by
  cases hawaits with
  | left _ _ _ _ _ hprogress => exact hprogress.elim
  | made hticket hjobs hprogress =>
    -- what the reports come to depends on the ticket
    obtain ⟨hanswer, -⟩ := Tokens.settleAll_congr
      ((Tokens.ticket?_single token _).trans hticket.symm) settlements
    have hticket' := s.world.tokens.ticket?_settleAll token hticket
      (by rw [Ticket.listening_settledAll]; rfl) settlements
    rw [← Ticket.settledAll_append] at hticket'
    simp only [advance] at h
    split at h
    · next hok =>
      cases h
      refine ⟨reported ++ settlements, fun hnone => ?_, fun other hother => ?_, ?_⟩
      · cases hnone
      · obtain rfl : token = other := Option.some.inj hother
        exact .made hticket' hjobs hprogress
      · simp only [Progress.verdict?, verdict?]
        rw [hanswer, hok]
    · next fault herror =>
      cases h
      simp only [verdict?]
      rw [hanswer, herror]
      rfl

/-- A function that leaves reports for later goes on as if they had been made. -/
theorem Behaviour.advance_settleLater_verdict? {name token : String} {milliseconds : Nat}
    {settlements : List Settlement} {rest : Behaviour} {s s' : Situation} {adv : TaskAdvance}
    {reported : List Settlement}
    (hawaits : s.world.Awaits reported token
      (.acting (.settleLater milliseconds token settlements rest)))
    (h : (settleLater milliseconds token settlements rest).advance name (some token) s =
      some (s', adv)) :
    adv.Follows s'.world name (some token) reported
      ((settleLater milliseconds token settlements rest).verdict? name (some token) reported) := by
  cases h
  cases hawaits with
  | left _ _ _ _ _ hprogress => exact hprogress.elim
  | made hticket hjobs hprogress =>
    refine ⟨reported ++ settlements, fun hnone => ?_, fun other hother => ?_, rfl⟩
    · cases hnone
    obtain rfl : token = other := Option.some.inj hother
    refine .left reported ⟨s.world.clock + milliseconds, token, settlements⟩ hticket ?_ rfl
      hprogress
    have hnone : s.world.jobs.filter (·.token = token) = [] := hjobs
    simp [Situation.addJob, World.jobsFor, List.filter_append, hnone]

/-- A step of a function follows what the function comes to. -/
theorem Behaviour.advance_verdict? {b : Behaviour} {name : String} {token? : Option String}
    {s s' : Situation} {adv : TaskAdvance} {reported : List Settlement}
    (hb : b.ReportsFor token?)
    (hawaits : ∀ token ∈ token?, s.world.Awaits reported token (.acting b))
    (h : b.advance name token? s = some (s', adv)) (hactive : s'.cancelled = false) :
    adv.Follows s'.world name token? reported (b.verdict? name token? reported) := by
  cases b with
  | answer outcome =>
    cases outcome with
    | ok output =>
      simp only [advance, Option.some.injEq, Prod.mk.injEq] at h
      obtain ⟨rfl, rfl⟩ := h
      cases token? with
      | none => rfl
      | some token =>
        refine ⟨reported, fun _ => rfl, fun token htoken => ?_, rfl⟩
        exact (hawaits token htoken).proceed (fun _ => trivial) fun _ => trivial
    | error message =>
      cases h
      rfl
  | pause milliseconds rest =>
    cases milliseconds with
    | zero =>
      cases h
      exact ⟨reported, fun _ => rfl, fun token htoken => (hawaits token htoken).proceed id id, rfl⟩
    | succ milliseconds =>
      cases h
      exact ⟨reported, fun _ => rfl, fun token htoken => (hawaits token htoken).proceed id id, rfl⟩
  | cancel rest =>
    cases h
    cases hactive
  | settle token settlements rest =>
    obtain ⟨rfl, -⟩ := hb
    exact advance_settle_verdict? (hawaits token rfl) h
  | settleLater milliseconds token settlements rest =>
    obtain ⟨rfl, -⟩ := hb
    exact advance_settleLater_verdict? (hawaits token rfl) h
  | hang | panic => cases h

/-- **A step of a task follows what the task comes to**, by the reports that it knows of. -/
theorem TaskWork.Advances.verdict? {work : TaskWork} {name : String} {s s' : Situation}
    {adv : TaskAdvance} {reported : List Settlement} (h : work.Advances name s s' adv)
    (hwork : work.progress.ReportsFor work.token?)
    (hawaits : ∀ token ∈ work.token?, s.world.Awaits reported token work.progress)
    (hactive : s'.cancelled = false) :
    adv.Follows s'.world name work.token? reported
      (work.progress.verdict? name work.token? reported) := by
  cases h with
  | acting hprogress h =>
    rw [hprogress] at hwork hawaits ⊢
    exact Behaviour.advance_verdict? hwork hawaits h hactive
  | awake hprogress _ =>
    rw [hprogress] at hawaits ⊢
    exact ⟨reported, fun _ => rfl, fun token htoken => (hawaits token htoken).proceed id id, rfl⟩
  | completed hprogress htoken hresult =>
    rw [hprogress, htoken]
    exact (hawaits _ htoken).reportedResult?_eq hresult
  | interrupted _ hcancelled =>
    rw [hactive] at hcancelled
    cases hcancelled

/-! ## Runs in order -/

/-- What is in order about the work of a state: tasks await their reports, and items are started in
order, each once. -/
def Work.InOrder (w : World) (reported : String → List Settlement) : Work → Prop
  | .task work => ∀ token ∈ work.token?, w.Awaits (reported token) token work.progress
  | .wait _ => True
  | .map _ _ active waiting =>
    (active.map (·.1) ++ waiting.map (·.1)).Nodup ∧ (active = [] → waiting = [])

theorem Work.InOrder.awaits {w : World} {reported : String → List Settlement} {work : TaskWork}
    (h : (Work.task work).InOrder w reported) : ∀ token ∈ work.token?,
      w.Awaits ((work.token?.map reported).getD []) token work.progress := by
  intro token htoken
  rw [Option.mem_def.mp htoken]
  exact h token htoken

/-- A run whose work is in order. -/
def Frame.InOrder (w : World) (reported : String → List Settlement) (f : Frame) : Prop :=
  ∀ name input work, f.run = .working name input work → work.InOrder w reported

namespace Frame

variable {w w' : World} {reported reported' : String → List Settlement} {m : Machine}
  {item? : Option Nat}

theorem everywhere_inOrder_ended (result : Except Fault Json) :
    Everywhere (InOrder w reported) ⟨m, item?, .ended result⟩ :=
  .of_items_eq_nil rfl nofun

theorem everywhere_inOrder_start (start : Machine) (input : Json) :
    Everywhere (InOrder w reported) ⟨m, item?, .start start input⟩ :=
  .of_items_eq_nil rfl nofun

theorem everywhere_inOrder_ofOutcome (name : String) (outcome : Except Fault Departure) :
    Everywhere (InOrder w reported) ⟨m, item?, .ofOutcome name outcome⟩ := by
  cases outcome with
  | ok departure => exact .of_items_eq_nil rfl nofun
  | error fault => exact everywhere_inOrder_ended _

theorem everywhere_inOrder_task {name : String} {input : Json} {work : TaskWork}
    (h : (Work.task work).InOrder w reported) :
    Everywhere (InOrder w reported) ⟨m, item?, .working name input (.task work)⟩ := by
  refine .of_items_eq_nil rfl ?_
  rintro _ _ _ ⟨⟩
  exact h

theorem everywhere_inOrder_startItem (frame : MapFrame) (index : Nat) (item : Json) :
    Everywhere (InOrder w reported) ⟨m, item?, frame.startItem index item⟩ := by
  unfold MapFrame.startItem
  split
  · exact everywhere_inOrder_start _ _
  · split
    · exact everywhere_inOrder_start _ _
    · exact everywhere_inOrder_ended _

/-- Only what is awaited for the tokens that a run holds counts. -/
theorem Everywhere.inOrder_of_awaits {f : Frame} (h : f.Everywhere (InOrder w reported))
    (hawaits : ∀ token ∈ f.run.tokens, ∀ progress, w.Awaits (reported token) token progress →
      w'.Awaits (reported' token) token progress) : f.Everywhere (InOrder w' reported') := by
  induction h with
  | @intro f here _ ih =>
    refine .intro (fun name input work hrun => ?_) fun g hg => ih g hg ?_
    · have hwork := here name input work hrun
      cases work with
      | task work =>
        intro token htoken
        apply hawaits token ?_ _ (hwork token htoken)
        rw [hrun]
        simpa [Run.tokens, Run.workTokens] using htoken
      | wait work => trivial
      | map frame delivered active waiting => exact hwork
    · intro token htoken
      apply hawaits token
      obtain ⟨m, item?, run⟩ := f
      cases run with
      | working name input work =>
        cases work with
        | map frame delivered active waiting =>
          obtain ⟨⟨index, run⟩, hmem, rfl⟩ := List.mem_map.mp hg
          simp only [Run.tokens, Run.workTokens]
          exact Run.mem_activeTokens hmem htoken
        | task work => cases hg
        | wait work => cases hg
      | entering name payload => cases hg
      | leaving name departure => cases hg
      | ended result => cases hg

end Frame

/-! ## Map states -/

theorem MapFrame.settle_snd (frame : MapFrame) (s s' : Situation) (name : String) (input : Json)
    (delivered : List Json) (active : List (Nat × Run)) (waiting : List (Nat × Json)) :
    (frame.settle s name input delivered active waiting).2 =
      (frame.settle s' name input delivered active waiting).2 := by
  unfold settle
  split <;> rfl

/-- A Map state that is settled is in order if its items are; dropped ones do not matter. -/
theorem Frame.everywhere_inOrder_settle {s : Situation} {reported : String → List Settlement}
    {m : Machine} {item? : Option Nat} {frame : MapFrame} {active : List (Nat × Run)}
    {waiting : List (Nat × Json)} (hindices : (active.map (·.1) ++ waiting.map (·.1)).Nodup)
    (hactive : ∀ p ∈ active,
      Everywhere (InOrder s.world reported) ⟨frame.machine, some p.1, p.2⟩)
    (name : String) (input : Json) (delivered : List Json) :
    Everywhere (InOrder (frame.settle s name input delivered active waiting).1.world reported)
      ⟨m, item?, (frame.settle s name input delivered active waiting).2⟩ := by
  have hall : (frame.handOver delivered active waiting).All fun p =>
      Everywhere (InOrder s.world reported) ⟨frame.machine, some p.1, p.2⟩ :=
    frame.handOver_all hactive fun p _ => everywhere_inOrder_startItem frame p.1 p.2
  unfold MapFrame.settle
  split
  · next delivered' active' waiting' heq =>
    rw [heq] at hall
    refine .intro ?_ fun g hg => ?_
    · rintro _ _ _ ⟨⟩
      refine ⟨frame.handOver_indices hindices heq, fun hnil => ?_⟩
      obtain ⟨index, run, rest, hhead, -⟩ := MapFrame.handOver_head heq
      rw [hhead] at hnil
      cases hnil
    · obtain ⟨p, hmem, rfl⟩ := List.mem_map.mp hg
      exact hall p hmem
  · exact everywhere_inOrder_ofOutcome name _
  · exact everywhere_inOrder_ended _

/-! ## Beginning a state -/

section

variable {scope : Scope} {s s' : Situation}

theorem callFunction_snd (hservices : scope.services.Steady) (s s' : Situation)
    (binding : Binding) (input context : Json) :
    (callFunction scope s binding input context).2 =
      (callFunction scope s' binding input context).2 := by
  unfold callFunction
  split
  · rfl
  · next handler hhandler =>
    dsimp only
    rw [hservices.uncounted binding handler hhandler (s.world.callsOf binding)
      (s'.world.callsOf binding)]

theorem callFunction_sequenced (hsequenced : scope.services.Sequenced) (s : Situation)
    (binding : Binding) (input context : Json) :
    (callFunction scope s binding input context).2.Sequenced := by
  unfold callFunction
  split
  · trivial
  · next handler hhandler => exact hsequenced binding handler hhandler _ input context

/-- How the work of a task begins: it is refused, or its function is called, with a new token that
nothing was reported for, or without one. -/
inductive TaskState.Begins (task : TaskState) (s s' : Situation) (name : String) (input : Json) :
    Run → Prop
  | refused (fault : Fault) : Begins task s s' name input (.ended (.error fault))
  | plain {progress : Progress} {deadline? : Option Nat} (hprogress : progress.Sequenced) :
      Begins task s s' name input (.working name input (.task ⟨task, progress, none, deadline?⟩))
  | callback {progress : Progress} {deadline? : Option Nat} (hprogress : progress.Sequenced)
      (hnamed : s.world.named < s'.world.named)
      (hticket : s'.world.tokens.ticket? (freshName s.world.named) = some .fresh)
      (hjobs : s'.world.jobs = s.world.jobs) :
      Begins task s s' name input (.working name input
        (.task ⟨task, progress, some (freshName s.world.named), deadline?⟩))

/-- A callback issues a token, and its function is called with that. -/
theorem TaskState.begins_beginCallback (task : TaskState)
    (hsequenced : scope.services.Sequenced) (s : Situation) (name : String)
    (input effective context : Json) (binding : Binding) :
    task.Begins s (task.beginCallback scope s name input effective context binding).1 name input
      (task.beginCallback scope s name input effective context binding).2 := by
  unfold beginCallback
  dsimp only
  split
  · exact .refused _
  · next argument _ =>
    have hprogress := callFunction_sequenced hsequenced
      { s with world := s.world.issueToken.1 } binding argument
      (Context.withToken context s.world.issueToken.2)
    have hcall := callFunction_minds scope { s with world := s.world.issueToken.1 } binding
      argument (Context.withToken context s.world.issueToken.2)
    obtain ⟨hnamed, htokens⟩ := callFunction_world scope
      { s with world := s.world.issueToken.1 } binding argument
      (Context.withToken context s.world.issueToken.2)
    obtain ⟨added, hadded, hnone⟩ := hcall.jobs
    refine .callback hprogress ?_ ?_ ?_
    · exact Nat.lt_of_lt_of_eq (Nat.lt_succ_self _) hnamed.symm
    · rw [htokens]
      exact Tokens.ticket?_set_self _ _ _
    · obtain rfl : added = [] := List.eq_nil_iff_forall_not_mem.mpr fun job hjob =>
        List.not_mem_nil (hnone job hjob)
      rw [hadded, List.append_nil]
      rfl

theorem TaskState.begins_begin (task : TaskState) (hsequenced : scope.services.Sequenced)
    (s : Situation) (name : String) (input context : Json) :
    task.Begins s (task.begin scope s name input context).1 name input
      (task.begin scope s name input context).2 := by
  unfold begin
  split
  · exact .refused _
  · dsimp only
    split
    · exact .refused _
    · next binding _ =>
      split
      · exact task.begins_beginCallback hsequenced s name input _ context binding
      · unfold beginPlain
        dsimp only
        split
        · exact .refused _
        · next argument _ =>
          exact .plain (callFunction_sequenced hsequenced s binding argument context)

/-- A task begins the same way at the same time, with the same name for its token. -/
theorem TaskState.begin_snd (task : TaskState) (hservices : scope.services.Steady)
    (hclock : s'.world.clock = s.world.clock) (hnamed : s'.world.named = s.world.named)
    (name : String) (input context : Json) :
    (task.begin scope s' name input context).2 = (task.begin scope s name input context).2 := by
  have hdeadline := World.deadlineAfter_congr hclock
  unfold begin
  dsimp only
  split
  · rfl
  · split
    · rfl
    · next binding _ =>
      split
      · have htoken : s'.world.issueToken.2 = s.world.issueToken.2 := congrArg freshName hnamed
        unfold beginCallback
        dsimp only
        rw [htoken, hdeadline]
        split
        · rfl
        · dsimp only
          rw [callFunction_snd hservices _ { s with world := s.world.issueToken.1 }]
      · unfold beginPlain
        dsimp only
        rw [hdeadline]
        split
        · rfl
        · dsimp only
          rw [callFunction_snd hservices s' s]

/-- The work of a state begins the same way at the same time. -/
theorem State.begin_snd (state : State) (hservices : scope.services.Steady)
    (hclock : s'.world.clock = s.world.clock) (horigin : s'.world.origin = s.world.origin)
    (hnamed : s'.world.named = s.world.named) (name : String) (input context : Json) :
    (state.begin scope s' name input context).2 = (state.begin scope s name input context).2 := by
  cases state with
  | task task => exact task.begin_snd hservices hclock hnamed name input context
  | wait wait =>
    unfold State.begin WaitState.begin
    dsimp only
    rw [World.now, World.now, hclock, horigin]
    split <;> rfl
  | map settings itemProcessor? iterator? =>
    unfold State.begin MapSettings.begin
    dsimp only
    split
    · rfl
    · split
      · rfl
      · exact MapFrame.settle_snd _ s' s name input [] _ _
  | pass p => rfl
  | choice c => rfl
  | fail f => rfl
  | succeed e => rfl
  | parallel p => rfl

end

end StateFlow
