import StateFlow.Function.Script
import StateFlow.Proofs.Execution.Ownership

/-!
# Moves in worlds that are alike

A move looks at the time, at the name that is given out next, and at the tickets of the tokens that
its task holds; a call looks at the function behind its binding.  Worlds are alike for an execution
when they agree on all this (`World.Alike`).  What it does in one of them it does in the other, as
long as its functions do not count their calls and report for the tokens of their own tasks only,
and the worlds stay alike (`Run.moveAt_likewise`).

## Main definitions

* `Behaviour.ReportsFor`, `Services.Steady`: functions that report for their own tokens only
* `World.Alike foreign w w'`, `Situation.Alike foreign s s'`: what is alike, some tokens aside
* `Situation.Likewise`: the same in situations that are alike
* `Frame.ReportsOwn`: a task whose function reports for its own token only

## Main results

* `Behaviour.advance_likewise`, `State.begin_likewise`, `Run.moveLeaf_likewise`: the parts of a move
* `Run.moveAt_likewise`: a move is possible in both situations or in neither, and does the same
-/

namespace StateFlow

/-! ## Functions that mind their own tokens -/

/-- All reports of a function are for a certain token; without one it makes none. -/
def Behaviour.ReportsFor (token? : Option String) : Behaviour → Prop
  | answer _ | hang | panic _ => True
  | pause _ rest | cancel rest => rest.ReportsFor token?
  | settle token _ rest | settleLater _ token _ rest =>
    token? = some token ∧ rest.ReportsFor token?

/-- The function of a task reports for a certain token only. -/
def Progress.ReportsFor (token? : Option String) : Progress → Prop
  | acting b | paused _ b => b.ReportsFor token?
  | awaiting => True

/-- Functions whose calls do not depend on how often they were called, and which report for no token
but the one that they were given with the call. -/
structure Services.Steady (services : Services) : Prop where
  uncounted : ∀ binding handler, services.invoker binding = some handler →
    ∀ earlier earlier' input context, handler earlier input context = handler earlier' input context
  own : ∀ binding handler, services.invoker binding = some handler →
    ∀ earlier input context,
      (handler earlier input context).ReportsFor (Script.tokenOf? context)

/-- A task at work whose function reports for its own token only. -/
def Frame.ReportsOwn (f : Frame) : Prop :=
  match f.run with
  | .working _ _ (.task work) => work.progress.ReportsFor work.token?
  | _ => True

/-! ## Reports in two registries -/

namespace Tokens

variable {t t' : Tokens} {token : String}

/-- What comes of a report depends on the ticket of its token. -/
theorem settle_congr (h : t'.ticket? token = t.ticket? token) (settlement : Settlement) :
    (t'.settle token settlement).2 = (t.settle token settlement).2 ∧
      (t'.settle token settlement).1.ticket? token =
        (t.settle token settlement).1.ticket? token := by
  refine ⟨?_, by rw [ticket?_settle, ticket?_settle, h]⟩
  cases settlement with
  | success output =>
    show (t'.complete token _).2 = (t.complete token _).2
    rw [complete_answer, complete_answer, h]
  | failure error cause =>
    show (t'.complete token _).2 = (t.complete token _).2
    rw [complete_answer, complete_answer, h]
  | revoke => rfl

theorem settleAll_cons (t : Tokens) (token : String) (first : Settlement)
    (later : List Settlement) : t.settleAll token (first :: later) =
      match (t.settle token first).2 with
      | .ok () => (t.settle token first).1.settleAll token later
      | .error fault => ((t.settle token first).1, .error fault) := by
  rw [settleAll]
  rcases t.settle token first with ⟨t₁, - | -⟩ <;> rfl

/-- What comes of several reports depends on the ticket of their token. -/
theorem settleAll_congr (h : t'.ticket? token = t.ticket? token) (settlements : List Settlement) :
    (t'.settleAll token settlements).2 = (t.settleAll token settlements).2 ∧
      (t'.settleAll token settlements).1.ticket? token =
        (t.settleAll token settlements).1.ticket? token := by
  induction settlements generalizing t t' with
  | nil => exact ⟨rfl, h⟩
  | cons first later ih =>
    obtain ⟨hanswer, hticket⟩ := settle_congr h first
    rw [settleAll_cons, settleAll_cons, hanswer]
    split
    · exact ih hticket
    · exact ⟨rfl, hticket⟩

/-- Tokens are given up one by one. -/
theorem ticket?_releaseAll_congr (h : t'.ticket? token = t.ticket? token) (tokens : List String) :
    (t'.releaseAll tokens).ticket? token = (t.releaseAll tokens).ticket? token := by
  induction tokens generalizing t t' with
  | nil => exact h
  | cons first tokens ih =>
    have hfirst : (t'.release first).ticket? token = (t.release first).ticket? token := by
      rw [ticket?_release, ticket?_release, h]
    exact ih hfirst

end Tokens

/-! ## Worlds and situations -/

/-- Two worlds with the same time and names, where all tokens but the foreign ones have the same
tickets and the same reports are left to be made for them. -/
structure World.Alike (foreign : List String) (w w' : World) : Prop where
  clock : w'.clock = w.clock
  origin : w'.origin = w.origin
  named : w'.named = w.named
  ticket? : ∀ token ∉ foreign, w'.tokens.ticket? token = w.tokens.ticket? token
  jobs : w'.jobs.Perm (w.jobs.filter fun job => job.token ∉ foreign)

/-- Two situations that differ in their worlds only, which are alike. -/
structure Situation.Alike (foreign : List String) (s s' : Situation) : Prop where
  world : s.world.Alike foreign s'.world
  cancelled : s'.cancelled = s.cancelled
  events : s'.events = s.events

variable {foreign : List String}

/-- Deadlines follow from the time. -/
theorem World.deadlineAfter_congr {w w' : World} (h : w'.clock = w.clock) :
    w'.deadlineAfter = w.deadlineAfter := by
  funext seconds
  rw [deadlineAfter, deadlineAfter, h]

namespace World.Alike

variable {w w' : World}

theorem now (h : w.Alike foreign w') : w'.now = w.now := by
  rw [World.now, World.now, h.origin, h.clock]

/-- Reports for a token that is not foreign are made in both worlds. -/
theorem settleAll (h : w.Alike foreign w') {token : String} (htoken : token ∉ foreign)
    (settlements : List Settlement) :
    (w'.tokens.settleAll token settlements).2 = (w.tokens.settleAll token settlements).2 ∧
      World.Alike foreign { w with tokens := (w.tokens.settleAll token settlements).1 }
        { w' with tokens := (w'.tokens.settleAll token settlements).1 } := by
  obtain ⟨hanswer, hticket⟩ := Tokens.settleAll_congr (h.ticket? token htoken) settlements
  refine ⟨hanswer, h.clock, h.origin, h.named, fun other hother => ?_, h.jobs⟩
  by_cases hne : token = other
  · subst hne
    exact hticket
  · show (w'.tokens.settleAll token settlements).1.ticket? other =
      (w.tokens.settleAll token settlements).1.ticket? other
    rw [Tokens.ticket?_settleAll_of_ne _ hne, Tokens.ticket?_settleAll_of_ne _ hne]
    exact h.ticket? other hother

/-- Worlds that are alike issue the same token. -/
theorem issueToken (h : w.Alike foreign w') :
    w.issueToken.1.Alike foreign w'.issueToken.1 ∧ w'.issueToken.2 = w.issueToken.2 := by
  have hname : freshName w'.named = freshName w.named := by rw [h.named]
  refine ⟨⟨h.clock, h.origin, congrArg (· + 1) h.named, fun token htoken => ?_, h.jobs⟩, hname⟩
  show (w'.tokens.issue (freshName w'.named)).ticket? token =
    (w.tokens.issue (freshName w.named)).ticket? token
  rw [Tokens.ticket?_issue, Tokens.ticket?_issue, hname, h.ticket? token htoken]

/-- Tokens are given up in both worlds. -/
theorem release (h : w.Alike foreign w') (tokens : List String) :
    World.Alike foreign { w with tokens := w.tokens.releaseAll tokens }
      { w' with tokens := w'.tokens.releaseAll tokens } :=
  ⟨h.clock, h.origin, h.named,
    fun token htoken => Tokens.ticket?_releaseAll_congr (h.ticket? token htoken) tokens, h.jobs⟩

end World.Alike

namespace Situation.Alike

variable {s s' : Situation}

theorem emit (h : s.Alike foreign s') (event : Event) :
    (s.emit event).Alike foreign (s'.emit event) :=
  ⟨h.world, h.cancelled, congrArg (· ++ [event]) h.events⟩

theorem release (h : s.Alike foreign s') (tokens : List String) :
    (s.release tokens).Alike foreign (s'.release tokens) :=
  ⟨h.world.release tokens, h.cancelled, h.events⟩

theorem recordCall (h : s.Alike foreign s') (call : Call) :
    (s.recordCall call).Alike foreign (s'.recordCall call) :=
  ⟨⟨h.world.clock, h.world.origin, h.world.named, h.world.ticket?, h.world.jobs⟩, h.cancelled,
    h.events⟩

theorem recordSleep (h : s.Alike foreign s') (nanoseconds : Nat) :
    (s.recordSleep nanoseconds).Alike foreign (s'.recordSleep nanoseconds) :=
  ⟨⟨h.world.clock, h.world.origin, h.world.named, h.world.ticket?, h.world.jobs⟩, h.cancelled,
    h.events⟩

theorem addJob (h : s.Alike foreign s') {job : Job} (hjob : job.token ∉ foreign) :
    (s.addJob job).Alike foreign (s'.addJob job) := by
  refine ⟨⟨h.world.clock, h.world.origin, h.world.named, h.world.ticket?, ?_⟩, h.cancelled,
    h.events⟩
  show (s'.world.jobs ++ [job]).Perm ((s.world.jobs ++ [job]).filter _)
  rw [List.filter_append, List.filter_cons_of_pos (by simpa using hjob), List.filter_nil]
  exact h.world.jobs.append_right [job]

end Situation.Alike

/-- The same, in situations that are alike. -/
def Situation.Likewise {α : Type} (foreign : List String) (p p' : Situation × α) : Prop :=
  p.1.Alike foreign p'.1 ∧ p.2 = p'.2

/-- Moves that do the same are both impossible, or both possible with the same result. -/
theorem Situation.likewise_cases {α : Type} {x x' : Option (Situation × α)}
    (h : Option.Rel (Situation.Likewise foreign) x x') :
    (x = none ∧ x' = none) ∨
      ∃ s s' a, x = some (s, a) ∧ x' = some (s', a) ∧ s.Alike foreign s' := by
  cases h with
  | none => exact .inl ⟨rfl, rfl⟩
  | @some p p' h =>
    obtain ⟨s, a⟩ := p
    obtain ⟨s', a'⟩ := p'
    obtain ⟨hs, rfl⟩ := h
    exact .inr ⟨s, s', a, rfl, rfl, hs⟩

/-! ## Functions -/

variable {s s' : Situation} {scope : Scope}

/-- A steady function does the same whenever it is called. -/
theorem callFunction_likewise (hservices : scope.services.Steady) (h : s.Alike foreign s')
    (binding : Binding) (input context : Json) :
    Situation.Likewise foreign (callFunction scope s binding input context)
      (callFunction scope s' binding input context) := by
  unfold callFunction
  cases hhandler : scope.services.invoker binding with
  | none => exact ⟨h, rfl⟩
  | some handler =>
    refine ⟨h.recordCall _, ?_⟩
    dsimp only
    rw [hservices.uncounted binding handler hhandler (s.world.callsOf binding)
      (s'.world.callsOf binding)]

/-- A function that reports for a token that is not foreign does the same in both situations. -/
theorem Behaviour.advance_likewise {b : Behaviour} {token? : Option String}
    (hb : b.ReportsFor token?) (htoken : ∀ token ∈ token?, token ∉ foreign)
    (h : s.Alike foreign s') (state : String) :
    Option.Rel (Situation.Likewise foreign) (b.advance state token? s)
      (b.advance state token? s') := by
  cases b with
  | answer outcome => cases outcome <;> exact .some ⟨h, rfl⟩
  | pause milliseconds rest =>
    cases milliseconds with
    | zero => exact .some ⟨h, rfl⟩
    | succ milliseconds =>
      refine .some ⟨h, ?_⟩
      rw [h.world.clock]
  | cancel rest => exact .some ⟨⟨h.world, rfl, h.events⟩, rfl⟩
  | settle token settlements rest =>
    obtain ⟨rfl, -⟩ := hb
    obtain ⟨hanswer, hworld⟩ := h.world.settleAll (htoken token rfl) settlements
    simp only [advance]
    rw [hanswer]
    -- the reports are refused in both situations or in neither
    cases (s.world.tokens.settleAll token settlements).2 with
    | ok _ => exact .some ⟨⟨hworld, h.cancelled, h.events⟩, rfl⟩
    | error fault => exact .some ⟨⟨hworld, h.cancelled, h.events⟩, rfl⟩
  | settleLater milliseconds token settlements rest =>
    obtain ⟨rfl, -⟩ := hb
    simp only [advance]
    rw [h.world.clock]
    exact .some ⟨h.addJob (htoken token rfl), rfl⟩
  | hang | panic => exact .none

/-! ## Tasks and Wait states -/

namespace TaskWork

variable {work : TaskWork}

theorem advance_likewise (hwork : work.progress.ReportsFor work.token?)
    (htoken : ∀ token ∈ work.token?, token ∉ foreign) (h : s.Alike foreign s') (state : String) :
    Option.Rel (Situation.Likewise foreign) (work.advance state s) (work.advance state s') := by
  unfold advance
  cases hprogress : work.progress with
  | acting b =>
    rw [hprogress] at hwork
    exact Behaviour.advance_likewise hwork htoken h state
  | paused wakeAt rest =>
    dsimp only
    rw [h.world.clock]
    split
    · exact .some ⟨h, rfl⟩
    · exact .none
  | awaiting =>
    dsimp only
    split
    · exact .none
    · next token heq =>
      rw [Tokens.peek_eq, Tokens.peek_eq, h.world.ticket? token (htoken token heq), h.cancelled]
      split
      · exact .some ⟨h, rfl⟩
      · split
        · exact .some ⟨h, rfl⟩
        · exact .none

theorem finish_likewise (work : TaskWork) (h : s.Alike foreign s') (state : String) (input : Json)
    (result : Except Fault Json) : Situation.Likewise foreign (work.finish s state input result)
      (work.finish s' state input result) :=
  ⟨h.release _, rfl⟩

theorem step_likewise (hwork : work.progress.ReportsFor work.token?)
    (htoken : ∀ token ∈ work.token?, token ∉ foreign) (h : s.Alike foreign s') (state : String)
    (input : Json) : Option.Rel (Situation.Likewise foreign) (work.step s state input)
      (work.step s' state input) := by
  unfold step
  rcases Situation.likewise_cases (advance_likewise hwork htoken h state) with
    ⟨hnone, hnone'⟩ | ⟨s₁, s₁', adv, heq, heq', hs⟩
  · rw [hnone, hnone']
    exact .none
  · rw [heq, heq']
    cases adv with
    | going progress => exact .some ⟨hs, rfl⟩
    | done result => exact .some (work.finish_likewise hs state input result)

theorem expire_likewise (hwork : work.progress.ReportsFor work.token?)
    (htoken : ∀ token ∈ work.token?, token ∉ foreign) (h : s.Alike foreign s') (state : String)
    (input : Json) : Option.Rel (Situation.Likewise foreign) (work.expire s state input)
      (work.expire s' state input) := by
  have hnone : (work.advance state s').isNone = (work.advance state s).isNone := by
    rcases Situation.likewise_cases (advance_likewise hwork htoken h state) with
      ⟨hnone, hnone'⟩ | ⟨_, _, _, heq, heq', -⟩
    · rw [hnone, hnone']
    · rw [heq, heq']
      rfl
  unfold expire
  rw [hnone, h.world.clock]
  split
  · exact .some (work.finish_likewise h state input _)
  · exact .none

theorem heed_likewise (work : TaskWork) (h : s.Alike foreign s') (state : String) (input : Json) :
    Option.Rel (Situation.Likewise foreign) (work.heed s state input)
      (work.heed s' state input) := by
  unfold heed
  rw [h.cancelled]
  split
  · split
    · exact .some (work.finish_likewise h state input _)
    · exact .none
  · exact .none

end TaskWork

namespace WaitWork

theorem step_likewise (work : WaitWork) (h : s.Alike foreign s') (state : String) :
    Option.Rel (Situation.Likewise foreign) (work.step s state) (work.step s' state) := by
  unfold step
  rw [h.world.clock, h.cancelled]
  split
  · exact .some ⟨h, rfl⟩
  · split
    · exact .some ⟨h, rfl⟩
    · exact .none

theorem heed_likewise (h : s.Alike foreign s') :
    Option.Rel (Situation.Likewise foreign) (heed s) (heed s') := by
  unfold heed
  rw [h.cancelled]
  split
  · exact .some ⟨h, rfl⟩
  · exact .none

end WaitWork

/-! ## Beginning a state -/

theorem MapFrame.settle_likewise (frame : MapFrame) (h : s.Alike foreign s') (state : String)
    (input : Json) (delivered : List Json) (active : List (Nat × Run))
    (waiting : List (Nat × Json)) :
    Situation.Likewise foreign (frame.settle s state input delivered active waiting)
      (frame.settle s' state input delivered active waiting) := by
  unfold settle
  split
  · exact ⟨h, rfl⟩
  · exact ⟨h, rfl⟩
  · exact ⟨h.release _, rfl⟩

namespace TaskState

variable (task : TaskState) (name : String)

theorem beginPlain_likewise (hservices : scope.services.Steady) (h : s.Alike foreign s')
    (input effective context : Json) (binding : Binding) :
    Situation.Likewise foreign (task.beginPlain scope s name input effective context binding)
      (task.beginPlain scope s' name input effective context binding) := by
  unfold beginPlain
  split
  · exact ⟨h, rfl⟩
  · next argument _ =>
    obtain ⟨hs, hprogress⟩ := callFunction_likewise hservices h binding argument context
    have hdeadline := World.deadlineAfter_congr h.world.clock
    refine ⟨hs, ?_⟩
    dsimp only
    rw [hprogress, hdeadline]

theorem beginCallback_likewise (hservices : scope.services.Steady) (h : s.Alike foreign s')
    (input effective context : Json) (binding : Binding) :
    Situation.Likewise foreign (task.beginCallback scope s name input effective context binding)
      (task.beginCallback scope s' name input effective context binding) := by
  obtain ⟨hissued, htoken⟩ := h.world.issueToken
  have hs : Situation.Alike foreign { s with world := s.world.issueToken.1 }
      { s' with world := s'.world.issueToken.1 } := ⟨hissued, h.cancelled, h.events⟩
  have hdeadline := World.deadlineAfter_congr h.world.clock
  unfold beginCallback
  dsimp only
  rw [htoken]
  split
  · exact ⟨hs.release _, rfl⟩
  · next argument _ =>
    obtain ⟨hcalled, hprogress⟩ := callFunction_likewise hservices hs binding argument
      (Context.withToken context s.world.issueToken.2)
    refine ⟨hcalled, ?_⟩
    dsimp only
    rw [hprogress, hdeadline]

theorem begin_likewise (hservices : scope.services.Steady) (h : s.Alike foreign s')
    (input context : Json) : Situation.Likewise foreign (task.begin scope s name input context)
      (task.begin scope s' name input context) := by
  unfold begin
  split
  · exact ⟨h, rfl⟩
  · dsimp only
    split
    · exact ⟨h, rfl⟩
    · split
      · exact task.beginCallback_likewise name hservices h input _ context _
      · exact task.beginPlain_likewise name hservices h input _ context _

end TaskState

theorem WaitState.begin_likewise (wait : WaitState) (scope : Scope) (h : s.Alike foreign s')
    (name : String) (input : Json) : Situation.Likewise foreign (wait.begin scope s name input)
      (wait.begin scope s' name input) := by
  unfold begin
  dsimp only
  rw [h.world.now, h.world.clock]
  split
  · exact ⟨h, rfl⟩
  · exact ⟨h.recordSleep _, rfl⟩

theorem MapSettings.begin_likewise (settings : MapSettings) (machine? : Option Machine)
    (scope : Scope) (h : s.Alike foreign s') (name : String) (input context : Json) :
    Situation.Likewise foreign (settings.begin machine? scope s name input context)
      (settings.begin machine? scope s' name input context) := by
  unfold begin
  split
  · exact ⟨h, rfl⟩
  · split
    · exact ⟨h, rfl⟩
    · exact MapFrame.settle_likewise _ h name input [] _ _

theorem State.begin_likewise (state : State) (hservices : scope.services.Steady)
    (h : s.Alike foreign s') (name : String) (input context : Json) :
    Situation.Likewise foreign (state.begin scope s name input context)
      (state.begin scope s' name input context) := by
  cases state with
  | task task => exact task.begin_likewise name hservices h input context
  | wait wait => exact wait.begin_likewise scope h name input
  | map settings itemProcessor? iterator? =>
    exact settings.begin_likewise _ scope h name input context
  | pass p => exact ⟨h, rfl⟩
  | choice c => exact ⟨h, rfl⟩
  | fail f => exact ⟨h, rfl⟩
  | succeed e => exact ⟨h, rfl⟩
  | parallel p => exact ⟨h, rfl⟩

/-! ## Moves -/

namespace Run

variable {move : LeafMove} {m : Machine} {item? : Option Nat}

theorem enter_likewise (hservices : scope.services.Steady) (h : s.Alike foreign s')
    (name : String) (payload : Json) :
    Situation.Likewise foreign (enter scope m item? s name payload)
      (enter scope m item? s' name payload) := by
  unfold enter
  rw [h.cancelled, h.world.now]
  split
  · exact ⟨h, rfl⟩
  · split
    · exact ⟨h, rfl⟩
    · next state _ =>
      split
      · exact ⟨h, rfl⟩
      · exact state.begin_likewise hservices (h.emit _) name payload _

theorem leave_likewise (h : s.Alike foreign s') (name : String) (departure : Departure) :
    Situation.Likewise foreign (leave item? s name departure)
      (leave item? s' name departure) := by
  unfold leave
  rw [h.cancelled]
  split
  · exact ⟨h, rfl⟩
  · dsimp only
    split
    · exact ⟨h.emit _, rfl⟩
    · exact ⟨h.emit _, rfl⟩

/-- A leaf whose token is not foreign does the same in both situations. -/
theorem moveLeaf_likewise {run : Run} (hservices : scope.services.Steady)
    (hrun : Frame.ReportsOwn ⟨m, item?, run⟩) (htokens : ∀ token ∈ run.tokens, token ∉ foreign)
    (h : s.Alike foreign s') : Option.Rel (Situation.Likewise foreign)
      (moveLeaf scope move m item? s run) (moveLeaf scope move m item? s' run) := by
  cases run with
  | entering name payload =>
    cases move with
    | step => exact .some (enter_likewise hservices h name payload)
    | expire => exact .none
    | heed => exact .none
  | leaving name departure =>
    cases move with
    | step => exact .some (leave_likewise h name departure)
    | expire => exact .none
    | heed => exact .none
  | ended result => cases move <;> exact .none
  | working name input work =>
    cases work with
    | task work =>
      have htoken : ∀ token ∈ work.token?, token ∉ foreign := by
        intro token htoken
        apply htokens token
        simpa [tokens, workTokens] using htoken
      cases move with
      | step => exact work.step_likewise hrun htoken h name input
      | expire => exact work.expire_likewise hrun htoken h name input
      | heed => exact work.heed_likewise h name input
    | wait work =>
      cases move with
      | step => exact work.step_likewise h name
      | expire => exact .none
      | heed => exact WaitWork.heed_likewise h
    | map frame delivered active waiting => cases move <;> exact .none

/-- **A move does the same in situations that are alike**, or is impossible in both. -/
theorem moveAt_likewise {address : List Nat} {run : Run} (hservices : scope.services.Steady)
    (hrun : Frame.Everywhere Frame.ReportsOwn ⟨m, item?, run⟩)
    (htokens : ∀ token ∈ run.tokens, token ∉ foreign) (h : s.Alike foreign s') :
    Option.Rel (Situation.Likewise foreign) (moveAt scope move m item? s address run)
      (moveAt scope move m item? s' address run) := by
  induction address generalizing m item? run with
  | nil => exact moveLeaf_likewise hservices hrun.here htokens h
  | cons index address ih =>
    cases run with
    | working name input work =>
      cases work with
      | map frame delivered active waiting =>
        simp only [moveAt, Option.bind_eq_bind]
        cases hold : active? index active with
        | none => exact .none
        | some old =>
          obtain ⟨before, after, heq, -⟩ := exists_activeTokens_eq hold
          have hmoved := @ih frame.machine (some index) old
            (hrun.inside _ (List.mem_map_of_mem (mem_of_active? hold)))
            (fun token htoken => htokens token (by simp [tokens, workTokens, heq, htoken]))
          simp only [Option.bind_some]
          rcases Situation.likewise_cases hmoved with
            ⟨hnone, hnone'⟩ | ⟨s₁, s₁', new, heq, heq', hs⟩
          · rw [hnone, hnone']
            exact .none
          · rw [heq, heq']
            exact .some (frame.settle_likewise hs name input delivered _ waiting)
      | task work => exact .none
      | wait work => exact .none
    | entering name payload => exact .none
    | leaving name departure => exact .none
    | ended result => exact .none

end Run

end StateFlow
