import Mathlib.Data.List.Perm.Basic
import StateFlow.Proofs.Execution.Likeness
import StateFlow.Proofs.Execution.Tasks
import StateFlow.Proofs.Simulator.Callback
import StateFlow.Proofs.Token.Closing

/-!
# Whom a move concerns

The functions of steady services report for the tokens of their own tasks, and go on to do so with
each step (`Frame.everywhere_reportsOwn_moveAt`).  So a move in a run makes no reports, and leaves
none for later, but for tokens that the run holds, and time does not pass by it (`World.Minds`).

## Main definitions

* `World.Minds held w w'`: time stands still, and reports are left for the tokens that are held
* `World.Serves`: what one does who only minds certain tokens
* `Execution.ReportsOwn`: an execution whose tasks report for their own tokens only

## Main results

* `Frame.everywhere_reportsOwn_moveAt`, `Execution.ReportsOwn.change`: a move keeps to own tokens
* `Frame.token_batch?_mem`: the reports of a move are for a token that is held
* `Run.moveAt_minds`, `Run.moveAt_serves`: what a move leaves alone
-/

namespace StateFlow

/-! ## The token of a task -/

@[simp] theorem Script.tokenOf?_ofState (identity : Identity) (state : String)
    (entered : Timestamp) : tokenOf? (Context.ofState identity state entered) = none := rfl

@[simp] theorem Script.tokenOf?_withToken (identity : Identity) (state : String)
    (entered : Timestamp) (token : String) :
    tokenOf? (Context.withToken (Context.ofState identity state entered) token) = some token :=
  rfl

/-! ## Functions go on reporting for their own tokens -/

variable {scope : Scope}

theorem callFunction_reportsFor (hservices : scope.services.Steady) (s : Situation)
    (binding : Binding) (input context : Json) :
    (callFunction scope s binding input context).2.ReportsFor (Script.tokenOf? context) := by
  unfold callFunction
  split
  · trivial
  · next handler hhandler => exact hservices.own binding handler hhandler _ input context

theorem Behaviour.ReportsFor.rest {b rest : Behaviour} {token? : Option String}
    (h : b.ReportsFor token?) (hrest : b.rest? = some rest) : rest.ReportsFor token? := by
  cases b with
  | pause milliseconds rest' =>
    cases hrest
    exact h
  | cancel rest' =>
    cases hrest
    exact h
  | settle token settlements rest' =>
    cases hrest
    exact h.2
  | settleLater milliseconds token settlements rest' =>
    cases hrest
    exact h.2
  | answer outcome => cases hrest
  | hang | panic => cases hrest

theorem TaskWork.Advances.reportsFor {work : TaskWork} {state : String} {s s' : Situation}
    {progress : Progress} (h : work.Advances state s s' (.going progress))
    (hwork : work.progress.ReportsFor work.token?) : progress.ReportsFor work.token? := by
  cases h with
  | acting hprogress h =>
    rw [hprogress] at hwork
    cases Behaviour.advances_of_advance h with
    | returned _ => trivial
    | asleep => exact hwork
    | acting hrest => exact Behaviour.ReportsFor.rest hwork hrest
  | awake hprogress _ =>
    rw [hprogress] at hwork
    exact hwork

namespace TaskState

variable (task : TaskState) (s : Situation) (name : String)

theorem begin_reportsOwn (hservices : scope.services.Steady) (m : Machine) (item? : Option Nat)
    (input : Json) (entered : Timestamp) : Frame.ReportsOwn ⟨m, item?,
      (task.begin scope s name input (Context.ofState scope.identity name entered)).2⟩ := by
  unfold begin
  split
  · trivial
  · dsimp only
    split
    · trivial
    · next binding _ =>
      split
      · unfold beginCallback
        dsimp only
        split
        · trivial
        · next argument _ =>
          have hreports := callFunction_reportsFor hservices
            { s with world := s.world.issueToken.1 } binding argument (Context.withToken
              (Context.ofState scope.identity name entered) s.world.issueToken.2)
          rwa [Script.tokenOf?_withToken] at hreports
      · unfold beginPlain
        dsimp only
        split
        · trivial
        · next argument _ =>
          have hreports := callFunction_reportsFor hservices s binding argument
            (Context.ofState scope.identity name entered)
          rwa [Script.tokenOf?_ofState] at hreports

end TaskState

namespace Frame

/-- **A move keeps all tasks to their own tokens.** -/
theorem everywhere_reportsOwn_moveAt (hservices : scope.services.Steady) {move : Run.LeafMove}
    {s s' : Situation} {address : List Nat} {f : Frame} {run' : Run}
    (hf : f.Everywhere ReportsOwn)
    (h : Run.moveAt scope move f.machine f.item? s address f.run = some (s', run')) :
    Everywhere ReportsOwn { f with run := run' } := by
  refine everywhere_atWork_moveAt (Q := fun work => work.progress.ReportsFor work.token?)
    (fun m item? task s name input entered => ?_) (fun work name s s' progress hwork hgoing => ?_)
    hf h
  · exact task.begin_reportsOwn s name hservices m item? input entered
  · exact hgoing.reportsFor hwork

/-- The reports of a move are for a token that the run holds. -/
theorem token_batch?_mem {f : Frame} (hf : f.Everywhere ReportsOwn) {move : Run.LeafMove}
    {address : List Nat} {batch : Batch} (h : f.batch? move address = some batch) :
    batch.token ∈ f.run.tokens := by
  obtain ⟨leaf, hat, hbatch⟩ := Option.bind_eq_some_iff.mp h
  refine mem_tokens_of_at? hat ?_
  have hleaf : leaf.ReportsOwn := (hf.of_at? hat).here
  obtain ⟨m, item?, run⟩ := leaf
  unfold Run.LeafMove.batch? at hbatch
  split at hbatch
  · next work heq =>
    obtain rfl : run = _ := heq
    unfold Progress.batch? at hbatch
    split at hbatch
    · next token settlements rest hprogress =>
      cases hbatch
      simp only [ReportsOwn, hprogress] at hleaf
      simp [Run.tokens, Run.workTokens, hleaf.1]
    · cases hbatch
  · cases hbatch

end Frame

/-! ## What a move leaves alone -/

/-- Time stands still, and reports are left for later for tokens that are held, if for any. -/
structure World.Minds (held : List String) (w w' : World) : Prop where
  clock : w'.clock = w.clock
  origin : w'.origin = w.origin
  jobs : ∃ added, w'.jobs = w.jobs ++ added ∧ ∀ job ∈ added, job.token ∈ held

namespace World.Minds

variable {held : List String} {w w' w'' : World}

theorem of_eq (hclock : w'.clock = w.clock) (horigin : w'.origin = w.origin)
    (hjobs : w'.jobs = w.jobs) : w.Minds held w' :=
  ⟨hclock, horigin, [], by rw [hjobs, List.append_nil], nofun⟩

theorem refl (w : World) : w.Minds held w := of_eq rfl rfl rfl

theorem mono {held' : List String} (h : w.Minds held w') (hheld : ∀ token ∈ held, token ∈ held') :
    w.Minds held' w' := by
  obtain ⟨added, hjobs, hadded⟩ := h.jobs
  exact ⟨h.clock, h.origin, added, hjobs, fun job hjob => hheld _ (hadded job hjob)⟩

end World.Minds

theorem callFunction_minds (scope : Scope) (s : Situation) (binding : Binding)
    (input context : Json) :
    s.world.Minds [] (callFunction scope s binding input context).1.world := by
  unfold callFunction
  split
  · exact .refl _
  · exact .of_eq rfl rfl rfl

theorem TaskState.begin_minds (task : TaskState) (scope : Scope) (s : Situation) (name : String)
    (input context : Json) :
    s.world.Minds [] (task.begin scope s name input context).1.world := by
  unfold begin
  split
  · exact .refl _
  · dsimp only
    split
    · exact .refl _
    · next binding _ =>
      split
      · unfold beginCallback
        dsimp only
        split
        · exact .of_eq rfl rfl rfl
        · next argument _ =>
          have hcall := callFunction_minds scope { s with world := s.world.issueToken.1 } binding
            argument (Context.withToken context s.world.issueToken.2)
          exact ⟨hcall.clock, hcall.origin, hcall.jobs⟩
      · unfold beginPlain
        dsimp only
        split
        · exact .refl _
        · exact callFunction_minds scope s binding _ context

theorem State.begin_minds (state : State) (scope : Scope) (s : Situation) (name : String)
    (input context : Json) :
    s.world.Minds [] (state.begin scope s name input context).1.world := by
  cases state with
  | pass p => exact .refl _
  | task task => exact task.begin_minds scope s name input context
  | wait wait =>
    unfold State.begin WaitState.begin
    dsimp only
    split
    · exact .refl _
    · exact .of_eq rfl rfl rfl
  | choice c => exact .refl _
  | fail f => exact .refl _
  | succeed e => exact .refl _
  | map settings itemProcessor? iterator? =>
    unfold State.begin MapSettings.begin
    dsimp only
    split
    · exact .refl _
    · split
      · exact .refl _
      · obtain ⟨tokens, htokens⟩ := MapFrame.settle_fst _ s name input [] _ _
        rw [htokens]
        exact .of_eq rfl rfl rfl
  | parallel p => exact .refl _

/-- A step of a function leaves a report for its own token, if any. -/
theorem Behaviour.advance_minds {b : Behaviour} {state : String} {token? : Option String}
    {s s' : Situation} {adv : TaskAdvance} (hb : b.ReportsFor token?)
    (h : b.advance state token? s = some (s', adv)) :
    s.world.Minds token?.toList s'.world := by
  cases b with
  | answer outcome => cases outcome <;> cases h <;> exact .refl _
  | pause milliseconds rest => cases milliseconds <;> cases h <;> exact .refl _
  | cancel rest =>
    cases h
    exact .refl _
  | settle token settlements rest =>
    simp only [advance] at h
    split at h <;> cases h <;> exact .of_eq rfl rfl rfl
  | settleLater milliseconds token settlements rest =>
    obtain ⟨rfl, -⟩ := hb
    cases h
    refine ⟨rfl, rfl, [_], rfl, fun job hjob => ?_⟩
    rw [List.mem_singleton.mp hjob]
    exact List.mem_cons_self
  | hang | panic => cases h

theorem TaskWork.Advances.minds {work : TaskWork} {state : String} {s s' : Situation}
    {adv : TaskAdvance} (h : work.Advances state s s' adv)
    (hwork : work.progress.ReportsFor work.token?) :
    s.world.Minds work.token?.toList s'.world := by
  cases h with
  | acting hprogress h =>
    rw [hprogress] at hwork
    exact Behaviour.advance_minds hwork h
  | awake _ _ => exact .refl _
  | completed _ _ _ => exact .refl _
  | interrupted _ _ => exact .refl _

namespace Run

variable {move : LeafMove} {s s' : Situation} {run' : Run}

theorem Enters.minds {m : Machine} {item? : Option Nat} {name : String} {input : Json}
    {held : List String} (h : Enters scope m item? s name input s' run') :
    s.world.Minds held s'.world := by
  cases h with
  | cancelled _ => exact .refl _
  | unknown _ _ => exact .refl _
  | refused _ _ _ => exact .refl _
  | @begun state _ _ _ _ _ hbegin =>
    obtain rfl : _ = s' := congrArg Prod.fst hbegin
    have hminds := state.begin_minds scope (s.emit (.stateEntered name state.kind input item?)) name
      input (Context.ofState scope.identity name s.world.now)
    exact hminds.mono nofun

theorem moveLeaf_minds {leaf : Frame} (hleaf : leaf.ReportsOwn)
    (hmove : moveLeaf scope move leaf.machine leaf.item? s leaf.run = some (s', run')) :
    s.world.Minds leaf.run.tokens s'.world := by
  obtain ⟨m, item?, run⟩ := leaf
  cases moves_of_moveLeaf hmove with
  | entering h => exact h.minds
  | leaving h => cases h <;> exact .refl _
  | going h =>
    simpa only [tokens, workTokens] using h.minds hleaf
  | done h =>
    have hminds := h.minds hleaf
    simp only [tokens, workTokens]
    exact ⟨hminds.clock, hminds.origin, hminds.jobs⟩
  | timedOut _ => exact .of_eq rfl rfl rfl
  | heeded _ => exact .of_eq rfl rfl rfl
  | slept _ => exact .refl _
  | woken _ => exact .refl _

/-- A move takes no time, whatever the functions report. -/
theorem moveAt_clock {m : Machine} {item? : Option Nat} {run : Run} {address : List Nat}
    (hmove : moveAt scope move m item? s address run = some (s', run')) :
    s'.world.clock = s.world.clock := by
  obtain ⟨⟨m, item?, run⟩, s₁, new, -, hleaf, tokens, rfl⟩ := moveAt_leaf hmove
  have hmoves := moves_of_moveLeaf hleaf
  show s₁.world.clock = s.world.clock
  cases run with
  | entering name input =>
    cases hmoves with
    | entering h => exact (@Enters.minds _ _ _ _ _ _ _ _ [] h).clock
  | leaving name departure =>
    cases hmoves with
    | leaving h => cases h <;> rfl
  | working name input work => exact hmoves.keeps.clock
  | ended result => cases hmoves

/-- **A move takes no time, and leaves reports for tokens of the run only.** -/
theorem moveAt_minds {f : Frame} {address : List Nat} (hf : f.Everywhere Frame.ReportsOwn)
    (hmove : moveAt scope move f.machine f.item? s address f.run = some (s', run')) :
    s.world.Minds f.run.tokens s'.world := by
  obtain ⟨leaf, s₁, new, hat, hleaf, tokens, rfl⟩ := moveAt_leaf hmove
  have hminds := (moveLeaf_minds (hf.of_at? hat).here hleaf).mono
    fun token htoken => Frame.mem_tokens_of_at? hat htoken
  exact ⟨hminds.clock, hminds.origin, hminds.jobs⟩

end Run

/-! ## Serving one's own tokens -/

/-- An element of a list and the others. -/
theorem perm_cons_eraseIdx {α : Type} {l : List α} {n : Nat} {a : α} (h : l[n]? = some a) :
    l.Perm (a :: l.eraseIdx n) := by
  obtain ⟨hlt, rfl⟩ := List.getElem?_eq_some_iff.mp h
  exact (List.getElem_cons_eraseIdx_perm hlt).symm

/-- What one who holds certain tokens does to the world: the tokens are accounted for, time stands
still, and all reports are for tokens that were held. -/
structure World.Serves (w w' : World) (held held' : List String) : Prop where
  books : ∃ batch?, w.Books batch? w' held held' ∧ ∀ batch ∈ batch?, batch.token ∈ held
  minds : w.Minds held w'

namespace World.Serves

variable {w w' : World} {held held' : List String} {token : String}

theorem of_books (hbooks : w.Books none w' held held') (hminds : w.Minds held w') :
    w.Serves w' held held' :=
  ⟨⟨none, hbooks, nofun⟩, hminds⟩

/-- Every token that is left behind was held before or is the one that was named. -/
theorem mem_or (h : w.Serves w' held held') {token : String} (htoken : token ∈ held') :
    token ∈ held ∨ token = freshName w.named ∧ w.named < w'.named := by
  obtain ⟨batch?, ⟨issued, dropped, hissues, hheld, -⟩, -⟩ := h.books
  rcases List.mem_append.mp (hheld.subset (List.mem_append_left dropped htoken)) with hmem | hmem
  · exact .inl hmem
  · cases hissues with
    | nothing _ => cases hmem
    | token hlt => exact .inr ⟨List.mem_singleton.mp hmem, hlt⟩

theorem named_le (h : w.Serves w' held held') : w.named ≤ w'.named := by
  obtain ⟨batch?, hbooks, -⟩ := h.books
  exact hbooks.named_le

/-- Whoever does not hold a token, and is not given it, leaves it alone. -/
theorem ticket?_of_not_mem (h : w.Serves w' held held') (htoken : token ∉ held)
    (hfresh : w.named < w'.named → token ≠ freshName w.named) :
    w'.tokens.ticket? token = w.tokens.ticket? token := by
  obtain ⟨batch?, ⟨issued, dropped, hissues, hperm, htokens⟩, hbatch⟩ := h.books
  have hissued : token ∉ issued := by
    intro hmem
    cases hissues with
    | nothing _ => cases hmem
    | token hlt => exact hfresh hlt (List.mem_singleton.mp hmem)
  have hdropped : token ∉ dropped := by
    intro hmem
    rcases List.mem_append.mp (hperm.subset (List.mem_append_right held' hmem)) with hmem | hmem
    · exact htoken hmem
    · exact hissued hmem
  rw [htokens, Tokens.ticket?_releaseAll_of_not_mem _ hdropped]
  cases batch? with
  | none => exact Tokens.ticket?_issueAll_of_not_mem hissued
  | some batch =>
    have hne : batch.token ≠ token := by
      rintro rfl
      exact htoken (hbatch batch rfl)
    rw [Tokens.reported, Tokens.ticket?_settleAll_of_ne _ hne,
      Tokens.ticket?_issueAll_of_not_mem hissued]

end World.Serves

/-- **A move in a run serves the tokens of the run.** -/
theorem Run.moveAt_serves {f : Frame} (hf : f.Everywhere Frame.ReportsOwn) {move : LeafMove}
    {s s' : Situation} {address : List Nat} {run' : Run}
    (hmove : moveAt scope move f.machine f.item? s address f.run = some (s', run')) :
    s.world.Serves s'.world f.run.tokens run'.tokens :=
  ⟨⟨_, moveAt_books hmove, fun _ hbatch => Frame.token_batch?_mem hf hbatch⟩,
    moveAt_minds hf hmove⟩

/-! ## Executions -/

namespace Execution

variable {e e' : Execution} {services : Services} {w w' : World}
  {leaf? : Option (Run.LeafMove × List Nat)}

/-- An execution whose tasks report for their own tokens only. -/
def ReportsOwn (e : Execution) : Prop :=
  match e.phase with
  | .running run _ => Frame.Everywhere Frame.ReportsOwn ⟨e.machine, none, run⟩
  | _ => True

/-- **An execution goes on reporting for its own tokens.** -/
theorem ReportsOwn.change (hservices : services.Steady) (he : e.ReportsOwn)
    (h : e.Change services w leaf? e') : e'.ReportsOwn := by
  cases h with
  | same => exact he
  | started h =>
    obtain ⟨-, started, rfl⟩ := start?_eq_some h
    exact .of_items_eq_nil rfl trivial
  | moved h =>
    obtain ⟨run, deadline?, s, run', hphase, hmove, -, rfl⟩ := moveAt?_eq_some h
    have hrun : Frame.Everywhere Frame.ReportsOwn ⟨e.machine, none, run⟩ := by
      simpa only [ReportsOwn, hphase] using he
    have hrun' : Frame.Everywhere Frame.ReportsOwn ⟨e.machine, none, run'⟩ :=
      Frame.everywhere_reportsOwn_moveAt hservices hrun hmove
    rcases withRun_cases (e.inSituation s) deadline? run' with ⟨result, -, heq⟩ | ⟨-, heq⟩
    · rw [heq]
      trivial
    · rw [heq]
      exact hrun'
  | aborted h =>
    obtain ⟨run, deadline?, report, -, -, -, rfl⟩ := abort?_eq_some h
    trivial
  | expired h =>
    obtain ⟨run, deadline, -, -, rfl⟩ := expire?_eq_some h
    trivial
  | cancelled => exact he

theorem moveAt?_minds {move : Run.LeafMove} {address : List Nat} (he : e.ReportsOwn)
    (h : e.moveAt? services w move address = some (w', e')) : w.Minds e.tokens w' := by
  obtain ⟨run, deadline?, s, run', hphase, hmove, rfl, -⟩ := moveAt?_eq_some h
  have hrun : Frame.Everywhere Frame.ReportsOwn ⟨e.machine, none, run⟩ := by
    simpa only [ReportsOwn, hphase] using he
  have htokens : e.tokens = run.tokens := by
    simp [tokens, hphase]
  rw [htokens]
  exact Run.moveAt_minds hrun hmove

theorem token_batch?_mem (he : e.ReportsOwn) {move : Run.LeafMove} {address : List Nat}
    {batch : Batch} (h : e.batch? move address = some batch) : batch.token ∈ e.tokens := by
  obtain ⟨root, hroot, hbatch⟩ := Option.bind_eq_some_iff.mp h
  unfold frame? at hroot
  split at hroot
  · next run deadline? hphase =>
    obtain rfl := Option.some.inj hroot
    have hrun : Frame.Everywhere Frame.ReportsOwn ⟨e.machine, none, run⟩ := by
      simpa only [ReportsOwn, hphase] using he
    simpa only [tokens, hphase] using Frame.token_batch?_mem hrun hbatch
  · cases hroot

end Execution

end StateFlow
