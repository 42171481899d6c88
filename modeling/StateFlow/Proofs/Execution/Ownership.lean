import StateFlow.Proofs.Execution.Change
import StateFlow.Proofs.Execution.Moves
import StateFlow.Proofs.Token.Books

/-!
# Who holds which token

A run holds the tokens of the callback tasks in it, an execution those of its run, and an engine
those of all its executions.  Each function that a move is made of accounts for these tokens, and so
does the move: a task issues its token when it begins and gives it up when it stops waiting, a Map
state that fails gives up those of the items that it drops, and an execution that times out gives up
all.  A step of a function makes the reports that it asks for.

## Main definitions

* `Run.LeafMove.batch?`, `Engine.batch?`: the reports that a move makes
* `Execution.tokens`, `Engine.tokens`: the tokens that are held

## Main results

* `MapFrame.settle_books`, `State.begin_books`: the accounts of the parts of a move
* `Run.moveLeaf_books`, `Run.moveAt_books`: the account of a move in a run
* `Engine.move_books`: the account of a move of an engine
-/

namespace StateFlow

/-! ## Map states -/

namespace Run

theorem activeTokens_append (active rest : List (Nat × Run)) :
    activeTokens (active ++ rest) = activeTokens active ++ activeTokens rest := by
  induction active with
  | nil => rfl
  | cons p active ih =>
    obtain ⟨index, run⟩ := p
    rw [List.cons_append, activeTokens, activeTokens, ih, List.append_assoc]

@[simp] theorem tokens_ofOutcome (name : String) (outcome : Except Fault Departure) :
    (ofOutcome name outcome).tokens = [] := by
  cases outcome <;> simp [ofOutcome, tokens]

theorem mem_activeTokens_iff {active : List (Nat × Run)} {token : String} :
    token ∈ activeTokens active ↔ ∃ p ∈ active, token ∈ p.2.tokens := by
  induction active with
  | nil => simp [activeTokens]
  | cons p active ih =>
    obtain ⟨index, run⟩ := p
    rw [activeTokens, List.mem_append, ih]
    simp

theorem mem_activeTokens {active : List (Nat × Run)} {index : Nat} {run : Run} {token : String}
    (h : (index, run) ∈ active) (htoken : token ∈ run.tokens) : token ∈ activeTokens active :=
  mem_activeTokens_iff.mpr ⟨(index, run), h, htoken⟩

/-- The tokens of one item among those of all. -/
theorem exists_activeTokens_eq {index : Nat} {old : Run} {active : List (Nat × Run)}
    (h : active? index active = some old) : ∃ before after,
      activeTokens active = before ++ old.tokens ++ after ∧
      ∀ new, activeTokens (setActive index new active) = before ++ new.tokens ++ after := by
  induction active with
  | nil => cases h
  | cons p active ih =>
    obtain ⟨i, run⟩ := p
    rw [active?] at h
    by_cases hi : i = index
    · rw [if_pos hi] at h
      obtain rfl : run = old := Option.some.inj h
      refine ⟨[], activeTokens active, by simp [activeTokens], fun new => ?_⟩
      simp [setActive, hi, activeTokens]
    · rw [if_neg hi] at h
      obtain ⟨before, after, heq, hset⟩ := ih h
      refine ⟨run.tokens ++ before, after, by simp [activeTokens, heq], fun new => ?_⟩
      simp [setActive, hi, activeTokens, hset]

end Run

namespace MapFrame

@[simp] theorem tokens_startItem (frame : MapFrame) (index : Nat) (item : Json) :
    (frame.startItem index item).tokens = [] := by
  unfold startItem
  split
  · simp [Run.start, Run.tokens]
  · split <;> simp [Run.start, Run.tokens]

/-- Handing over gives up no tokens but those of the items that are dropped. -/
theorem handOver_tokens (frame : MapFrame) (delivered : List Json) (active : List (Nat × Run))
    (waiting : List (Nat × Json)) :
    match frame.handOver delivered active waiting with
    | .going _ active' _ => Run.activeTokens active = Run.activeTokens active'
    | .complete _ => Run.activeTokens active = []
    | .failed _ _ dropped => Run.activeTokens active = Run.activeTokens dropped := by
  fun_induction frame.handOver delivered active waiting with
  | case1 => simp [Run.activeTokens]
  | case2 delivered index output active ih =>
    simpa [Run.activeTokens, Run.tokens] using ih
  | case3 delivered index' output active index item waiting ih =>
    simpa [Run.activeTokens, Run.tokens, Run.activeTokens_append] using ih
  | case4 => simp [Run.activeTokens, Run.tokens]
  | case5 => rfl

/-- Settling a Map state accounts for the tokens of its items. -/
theorem settle_books (frame : MapFrame) {batch? : Option Batch} {w : World} {s : Situation}
    {held : List String} {active : List (Nat × Run)}
    (h : w.Books batch? s.world held (Run.activeTokens active)) (name : String) (input : Json)
    (delivered : List Json) (waiting : List (Nat × Json)) :
    w.Books batch? (frame.settle s name input delivered active waiting).1.world held
      (frame.settle s name input delivered active waiting).2.tokens := by
  have htokens := frame.handOver_tokens delivered active waiting
  unfold settle
  split
  · next delivered' active' waiting' heq =>
    rw [heq] at htokens
    rw [htokens] at h
    exact h
  · next outputs heq =>
    rw [heq] at htokens
    rw [htokens] at h
    simpa using h
  · next index fault dropped heq =>
    rw [heq] at htokens
    refine h.drop ?_
    rw [htokens]
    exact .refl _

end MapFrame

/-! ## Beginning a state -/

theorem callFunction_world (scope : Scope) (s : Situation) (binding : Binding)
    (input context : Json) :
    (callFunction scope s binding input context).1.world.named = s.world.named ∧
      (callFunction scope s binding input context).1.world.tokens = s.world.tokens := by
  unfold callFunction
  split <;> exact ⟨rfl, rfl⟩

namespace TaskState

variable (task : TaskState) (scope : Scope) (s : Situation) (name : String)

theorem beginPlain_books (input effective context : Json) (binding : Binding) :
    s.world.Books none (task.beginPlain scope s name input effective context binding).1.world []
      (task.beginPlain scope s name input effective context binding).2.tokens := by
  unfold beginPlain
  split
  · exact .of_eq (Nat.le_refl _) rfl
  · next argument _ =>
    obtain ⟨hnamed, htokens⟩ := callFunction_world scope s binding argument context
    exact .of_eq (Nat.le_of_eq hnamed.symm) htokens

/-- A callback task issues its token, and gives it up at once if its parameters are refused. -/
theorem beginCallback_books (input effective context : Json) (binding : Binding) :
    s.world.Books none (task.beginCallback scope s name input effective context binding).1.world []
      (task.beginCallback scope s name input effective context binding).2.tokens := by
  unfold beginCallback
  dsimp only
  split
  · exact .intro [freshName s.world.named] [freshName s.world.named]
      (.token (Nat.lt_succ_self _)) (.refl _) rfl
  · next argument _ =>
    obtain ⟨hnamed, htokens⟩ := callFunction_world scope { s with world := s.world.issueToken.1 }
      binding argument (Context.withToken context s.world.issueToken.2)
    refine .intro [freshName s.world.named] [] (.token ?_) (.refl _) htokens
    exact Nat.lt_of_lt_of_eq (Nat.lt_succ_self _) hnamed.symm

theorem begin_books (input context : Json) :
    s.world.Books none (task.begin scope s name input context).1.world []
      (task.begin scope s name input context).2.tokens := by
  unfold begin
  split
  · exact .of_eq (Nat.le_refl _) rfl
  · dsimp only
    split
    · exact .of_eq (Nat.le_refl _) rfl
    · split
      · exact task.beginCallback_books scope s name input _ context _
      · exact task.beginPlain_books scope s name input _ context _

end TaskState

theorem WaitState.begin_books (wait : WaitState) (scope : Scope) (s : Situation) (name : String)
    (input : Json) : s.world.Books none (wait.begin scope s name input).1.world []
      (wait.begin scope s name input).2.tokens := by
  unfold begin
  dsimp only
  split
  · exact .of_eq (Nat.le_refl _) rfl
  · simp only [Run.tokens, Run.workTokens]
    exact .of_eq (Nat.le_refl _) rfl

/-- The items of a Map state that begins hold no tokens yet. -/
theorem MapSettings.begin_books (settings : MapSettings) (machine? : Option Machine)
    (scope : Scope) (s : Situation) (name : String) (input context : Json) :
    s.world.Books none (settings.begin machine? scope s name input context).1.world []
      (settings.begin machine? scope s name input context).2.tokens := by
  unfold begin
  split
  · exact .of_eq (Nat.le_refl _) rfl
  · next machine =>
    split
    · exact .of_eq (Nat.le_refl _) rfl
    · next effective items _ =>
      have hnone : ∀ (frame : MapFrame) (items : List (Nat × Json)),
          Run.activeTokens (frame.startItems items) = [] := by
        intro frame items
        induction items with
        | nil => rfl
        | cons p items ih =>
          rw [MapFrame.startItems, List.map_cons, Run.activeTokens, MapFrame.tokens_startItem]
          exact ih
      refine MapFrame.settle_books _ ?_ name input [] _
      rw [hnone]
      exact .of_eq (Nat.le_refl _) rfl

theorem State.begin_books (state : State) (scope : Scope) (s : Situation) (name : String)
    (input context : Json) :
    s.world.Books none (state.begin scope s name input context).1.world []
      (state.begin scope s name input context).2.tokens := by
  have houtcome : ∀ outcome, s.world.Books none s.world [] (Run.ofOutcome name outcome).tokens := by
    intro outcome
    rw [Run.tokens_ofOutcome]
    exact .of_eq (Nat.le_refl _) rfl
  cases state with
  | pass p => exact houtcome (p.outcome input)
  | task task => exact task.begin_books scope s name input context
  | wait wait => exact wait.begin_books scope s name input
  | choice c => exact houtcome (c.outcome name input context)
  | fail f => exact houtcome (f.outcome name)
  | succeed e => exact houtcome (e.outcome input)
  | map settings itemProcessor? iterator? => exact settings.begin_books _ scope s name input context
  | parallel p => exact .of_eq (Nat.le_refl _) rfl

/-! ## Moves of a leaf -/

/-- The reports of the next step of a function. -/
def Progress.batch? : Progress → Option Batch
  | .acting (.settle token settlements _) => some ⟨token, settlements⟩
  | _ => none

/-- The reports that a move of a leaf makes. -/
def Run.LeafMove.batch? : Run.LeafMove → Run → Option Batch
  | .step, .working _ _ (.task work) => work.progress.batch?
  | _, _ => none

/-- A step of a function makes its reports, and concerns no other tokens. -/
theorem Behaviour.advance_world {b : Behaviour} {state : String} {token? : Option String}
    {s s' : Situation} {adv : TaskAdvance} (h : b.advance state token? s = some (s', adv)) :
    s'.world.named = s.world.named ∧
      s'.world.tokens = s.world.tokens.reported (Progress.acting b).batch? := by
  cases b with
  | answer outcome => cases outcome <;> cases h <;> exact ⟨rfl, rfl⟩
  | pause milliseconds rest => cases milliseconds <;> cases h <;> exact ⟨rfl, rfl⟩
  | cancel rest =>
    cases h
    exact ⟨rfl, rfl⟩
  | settle token settlements rest =>
    simp only [advance] at h
    split at h <;> cases h <;> exact ⟨rfl, rfl⟩
  | settleLater milliseconds token settlements rest =>
    cases h
    exact ⟨rfl, rfl⟩
  | hang | panic => cases h

theorem TaskWork.Advances.world {work : TaskWork} {state : String} {s s' : Situation}
    {adv : TaskAdvance} (h : work.Advances state s s' adv) :
    s'.world.named = s.world.named ∧
      s'.world.tokens = s.world.tokens.reported work.progress.batch? := by
  cases h with
  | acting hprogress h =>
    rw [hprogress]
    exact Behaviour.advance_world h
  | awake hprogress _ =>
    rw [hprogress]
    exact ⟨rfl, rfl⟩
  | completed hprogress _ _ =>
    rw [hprogress]
    exact ⟨rfl, rfl⟩
  | interrupted hprogress _ =>
    rw [hprogress]
    exact ⟨rfl, rfl⟩

/-- A task that stops waiting gives up its token. -/
theorem TaskWork.finish_books (work : TaskWork) {batch? : Option Batch} {w : World} {s : Situation}
    {held : List String} (h : w.Books batch? s.world held work.token?.toList) (name : String)
    (input : Json) (result : Except Fault Json) :
    w.Books batch? (work.finish s name input result).1.world held
      (work.finish s name input result).2.tokens := by
  refine h.drop ?_
  rw [finish, Run.tokens_ofOutcome]
  exact .refl _

namespace Run

variable {scope : Scope} {move : LeafMove} {m : Machine} {item? : Option Nat} {s s' : Situation}
  {run run' : Run}

theorem Enters.books {name : String} {input : Json}
    (h : Enters scope m item? s name input s' run') :
    s.world.Books none s'.world [] run'.tokens := by
  cases h with
  | cancelled _ => exact .of_eq (Nat.le_refl _) rfl
  | unknown _ _ => exact .of_eq (Nat.le_refl _) rfl
  | refused _ _ _ => exact .of_eq (Nat.le_refl _) rfl
  | @begun state _ _ _ _ _ h =>
    obtain rfl : _ = s' := congrArg Prod.fst h
    obtain rfl : _ = run' := congrArg Prod.snd h
    exact state.begin_books scope (s.emit (.stateEntered name state.kind input item?)) name input _

theorem Leaves.books {name : String} {departure : Departure}
    (h : Leaves item? s name departure s' run') : s.world.Books none s'.world [] run'.tokens := by
  cases h with
  | cancelled _ => exact .of_eq (Nat.le_refl _) rfl
  | next _ _ =>
    exact .of_eq (Nat.le_refl _) rfl
  | last _ _ =>
    exact .of_eq (Nat.le_refl _) rfl

/-- The account of a move of a task. -/
theorem moveLeaf_task_books {name : String} {input : Json} {work : TaskWork}
    (hmove : moveLeaf scope move m item? s (.working name input (.task work)) = some (s', run')) :
    s.world.Books (move.batch? (.working name input (.task work))) s'.world work.token?.toList
      run'.tokens := by
  have hkept : s.world.Books none s.world work.token?.toList work.token?.toList :=
    .of_eq (Nat.le_refl _) rfl
  cases move with
  | step =>
    obtain ⟨⟨s₁, adv⟩, hadv, hnew⟩ := Option.map_eq_some_iff.mp hmove
    obtain ⟨hnamed, htokens⟩ := (TaskWork.advances_of_advance hadv).world
    have hbooks : s.world.Books work.progress.batch? s₁.world work.token?.toList
        work.token?.toList := .of_reported (Nat.le_of_eq hnamed.symm) htokens
    cases adv with
    | going progress =>
      cases hnew
      exact hbooks
    | done result =>
      obtain rfl : _ = s' := congrArg Prod.fst (Option.some.inj (congrArg some hnew))
      obtain rfl : _ = run' := congrArg Prod.snd hnew
      exact work.finish_books hbooks name input result
  | expire =>
    simp only [moveLeaf, expireLeaf, TaskWork.expire] at hmove
    split at hmove
    · obtain rfl : _ = s' := congrArg Prod.fst (Option.some.inj hmove)
      obtain rfl : _ = run' := congrArg Prod.snd (Option.some.inj hmove)
      exact work.finish_books hkept name input _
    · cases hmove
  | heed =>
    simp only [moveLeaf, heedLeaf, TaskWork.heed] at hmove
    split at hmove
    · split at hmove
      · obtain rfl : _ = s' := congrArg Prod.fst (Option.some.inj hmove)
        obtain rfl : _ = run' := congrArg Prod.snd (Option.some.inj hmove)
        exact work.finish_books hkept name input _
      · cases hmove
    · cases hmove

/-- **A move of a leaf accounts for its tokens.** -/
theorem moveLeaf_books (hmove : moveLeaf scope move m item? s run = some (s', run')) :
    s.world.Books (move.batch? run) s'.world run.tokens run'.tokens := by
  cases run with
  | entering name input =>
    cases moves_of_moveLeaf hmove with
    | entering h =>
      have hbatch : move.batch? (.entering name input) = none := by
        cases move <;> rfl
      rw [hbatch]
      simpa only [tokens] using h.books
  | leaving name departure =>
    cases moves_of_moveLeaf hmove with
    | leaving h =>
      have hbatch : move.batch? (.leaving name departure) = none := by
        cases move <;> rfl
      rw [hbatch]
      simpa only [tokens] using h.books
  | ended result => cases moves_of_moveLeaf hmove
  | working name input work =>
    cases work with
    | task work => simpa only [tokens, workTokens] using moveLeaf_task_books hmove
    | wait work =>
      have hbatch : move.batch? (.working name input (.wait work)) = none := by
        cases move <;> rfl
      rw [hbatch]
      cases moves_of_moveLeaf hmove with
      | slept _ =>
        simp only [tokens, workTokens, tokens_ofOutcome]
        exact .of_eq (Nat.le_refl _) rfl
      | woken _ =>
        simp only [tokens, workTokens]
        exact .of_eq (Nat.le_refl _) rfl
    | map frame delivered active waiting => cases moves_of_moveLeaf hmove

end Run

/-! ## Moves in a run -/

/-- The reports that a move of the leaf at an address makes. -/
def Frame.batch? (f : Frame) (move : Run.LeafMove) (address : List Nat) : Option Batch :=
  (f.at? address).bind fun leaf => move.batch? leaf.run

/-- **A move anywhere in a run accounts for its tokens.** -/
theorem Run.moveAt_books {scope : Scope} {move : LeafMove} {m : Machine} {item? : Option Nat}
    {s s' : Situation} {run run' : Run} {address : List Nat}
    (hmove : moveAt scope move m item? s address run = some (s', run')) :
    s.world.Books (Frame.batch? ⟨m, item?, run⟩ move address) s'.world run.tokens run'.tokens := by
  induction address generalizing m item? run s' run' with
  | nil => exact moveLeaf_books hmove
  | cons index address ih =>
    obtain ⟨name, input, frame, delivered, active, waiting, old, s₁, new, rfl, hold, hnew, hs⟩ :=
      moveAt_cons hmove
    obtain ⟨before, after, heq, hset⟩ := exists_activeTokens_eq hold
    have hbatch : Frame.batch? ⟨m, item?, .working name input (.map frame delivered active waiting)⟩
        move (index :: address) = Frame.batch? ⟨frame.machine, some index, old⟩ move address := by
      simp [Frame.batch?, Frame.at?, hold]
    have hitems : s.world.Books (Frame.batch? ⟨frame.machine, some index, old⟩ move address)
        s₁.world (activeTokens active) (activeTokens (setActive index new active)) := by
      rw [heq, hset]
      exact (ih hnew).frame before after
    obtain rfl : _ = s' := congrArg Prod.fst hs
    obtain rfl : _ = run' := congrArg Prod.snd hs
    rw [hbatch]
    simpa only [tokens, workTokens] using
      frame.settle_books hitems name input delivered waiting

/-! ## Executions and engines -/

namespace Execution

/-- The tokens that an execution holds. -/
def tokens (e : Execution) : List String :=
  match e.phase with
  | .running run _ => run.tokens
  | _ => []

/-- The reports that a move of a leaf of an execution makes. -/
def batch? (e : Execution) (move : Run.LeafMove) (address : List Nat) : Option Batch :=
  e.frame?.bind fun root => root.batch? move address

variable {e e' : Execution} {services : Services} {w w' : World}

theorem tokens_withRun (e : Execution) (deadline? : Option Nat) (run : Run) :
    (e.withRun deadline? run).tokens = run.tokens := by
  rcases withRun_cases e deadline? run with ⟨result, rfl, heq⟩ | ⟨-, heq⟩
  · rw [heq]
    simp [finish, tokens, Run.tokens]
  · rw [heq]
    rfl

theorem moveAt?_books {move : Run.LeafMove} {address : List Nat}
    (h : e.moveAt? services w move address = some (w', e')) :
    w.Books (e.batch? move address) w' e.tokens e'.tokens := by
  obtain ⟨run, deadline?, s, run', hphase, hmove, rfl, rfl⟩ := moveAt?_eq_some h
  have hbooks := Run.moveAt_books hmove
  have hbatch : e.batch? move address = Frame.batch? ⟨e.machine, none, run⟩ move address := by
    simp [batch?, frame?, hphase]
  have htokens : e.tokens = run.tokens := by
    simp [tokens, hphase]
  rw [tokens_withRun, hbatch, htokens]
  exact hbooks

theorem start?_books (h : e.start? w = some e') : w.Books none w e.tokens e'.tokens := by
  obtain ⟨hphase, started, rfl⟩ := start?_eq_some h
  have htokens : e.tokens = [] := by
    simp [tokens, hphase]
  rw [htokens]
  simp only [tokens, Run.start, Run.tokens]
  exact .of_eq (Nat.le_refl _) rfl

/-- An execution that is aborted gives up all its tokens. -/
theorem abort?_books {address : List Nat} (h : e.abort? w address = some (w', e')) :
    w.Books none w' e.tokens e'.tokens := by
  obtain ⟨run, deadline?, report, hphase, -, rfl, rfl⟩ := abort?_eq_some h
  have htokens : e.tokens = run.tokens := by
    simp [tokens, hphase]
  have hkept : w.Books none w run.tokens run.tokens := .of_eq (Nat.le_refl _) rfl
  rw [htokens]
  exact hkept.drop (.refl _)

/-- An execution that times out gives up all its tokens. -/
theorem expire?_books (h : e.expire? w = some (w', e')) :
    w.Books none w' e.tokens e'.tokens := by
  obtain ⟨run, deadline?, hphase, rfl⟩ := expire?_world h
  obtain ⟨_, _, -, -, rfl⟩ := expire?_eq_some h
  have htokens : e.tokens = run.tokens := by
    simp [tokens, hphase]
  have hkept : w.Books none w run.tokens run.tokens := .of_eq (Nat.le_refl _) rfl
  rw [htokens]
  exact hkept.drop (.refl _)

end Execution

namespace Engine

/-- The tokens that the executions of an engine hold. -/
def tokens (engine : Engine) : List String := engine.executions.flatMap Execution.tokens

theorem mem_tokens {engine : Engine} {place : Nat} {e : Execution} {token : String}
    (he : engine.executions[place]? = some e) (htoken : token ∈ e.tokens) :
    token ∈ engine.tokens :=
  List.mem_flatMap.mpr ⟨e, List.mem_of_getElem? he, htoken⟩

/-- An execution that has just been created holds no tokens. -/
theorem tokens_launch (engine : Engine) (name : String) (machine : Machine) (input : Json) :
    (engine.launch name machine input).1.tokens = engine.tokens := by
  simp [launch, tokens, Execution.create, Execution.tokens]

/-- The reports that a move makes. -/
def batch? (engine : Engine) : Move → Option Batch
  | .leaf place move address => engine.executions[place]?.bind fun e => e.batch? move address
  | .report job => engine.world.jobs[job]?.map fun j => ⟨j.token, j.settlements⟩
  | .settle token settlement => some ⟨token, [settlement]⟩
  | .start _ | .abort .. | .expire _ | .wait _ | .cancel _ => none

variable {engine engine' : Engine} {move : Move}

/-- The tokens of one execution among those of all. -/
theorem exists_tokens_eq {place : Nat} {e : Execution} (he : engine.executions[place]? = some e) :
    ∃ before after, engine.tokens = before ++ e.tokens ++ after ∧ ∀ e' : Execution,
      (engine.executions.set place e').flatMap Execution.tokens =
        before ++ e'.tokens ++ after := by
  obtain ⟨hlt, rfl⟩ := List.getElem?_eq_some_iff.mp he
  have hset : ∀ e' : Execution, (engine.executions.set place e').flatMap Execution.tokens =
      (engine.executions.take place).flatMap Execution.tokens ++ e'.tokens ++
        (engine.executions.drop (place + 1)).flatMap Execution.tokens := by
    intro e'
    rw [List.set_eq_take_append_cons_drop, if_pos hlt]
    simp
  refine ⟨_, _, ?_, hset⟩
  rw [← hset, List.set_getElem_self]
  rfl

/-- What an execution that changes accounts for, the engine does. -/
theorem books_of_set {place : Nat} {e e' : Execution} {w : World} {batch? : Option Batch}
    (he : engine.executions[place]? = some e)
    (h : engine.world.Books batch? w e.tokens e'.tokens) :
    engine.world.Books batch? w engine.tokens
      (tokens ⟨engine.services, w, engine.executions.set place e'⟩) := by
  obtain ⟨before, after, heq, hset⟩ := exists_tokens_eq he
  rw [heq, tokens, hset]
  exact h.frame before after

/-- **Every move of an engine accounts for its tokens.** -/
theorem move_books (h : engine.move move = some engine') :
    engine.world.Books (engine.batch? move) engine'.world engine.tokens engine'.tokens := by
  cases moves_of_move h with
  | start he hstart => exact books_of_set he (Execution.start?_books hstart)
  | @leaf place move address e _ _ he hmove =>
    have hbatch : engine.batch? (.leaf place move address) = e.batch? move address := by
      simp [batch?, he]
    rw [hbatch]
    exact books_of_set he (Execution.moveAt?_books hmove)
  | abort he habort => exact books_of_set he (Execution.abort?_books habort)
  | expire he hexpire => exact books_of_set he (Execution.expire?_books hexpire)
  | cancel he => exact books_of_set he (.of_eq (Nat.le_refl _) rfl)
  | @report n job hjob =>
    have hbatch : engine.batch? (.report n) = some ⟨job.token, job.settlements⟩ := by
      simp [batch?, hjob]
    rw [hbatch]
    exact .of_reported (Nat.le_refl _) rfl
  | wait => exact .of_eq (Nat.le_refl _) rfl
  | settle =>
    refine .of_reported (Nat.le_refl _) ?_
    exact (Tokens.settleAll_singleton _ _ _).symm

end Engine

end StateFlow
