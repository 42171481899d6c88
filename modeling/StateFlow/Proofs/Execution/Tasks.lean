import StateFlow.Proofs.Execution.Ownership

/-!
# Tasks at work

A task gets its work when it begins, and a step of it changes the progress only.  So a property of
tasks at work that holds of those that begin, and survives every step, holds of all tasks of a run
(`Frame.everywhere_atWork_moveAt`).

One such property is that a task holds a token only if it is a callback task, and has a deadline
only if its definition gives it a time limit.  So nothing times out in an execution of a machine
without time limits, and one of a machine without callback tasks holds no tokens.

## Main definitions

* `Frame.AtWork Q`: a frame whose task, if it is at work in one, has a property
* `Machine.Unlimited`, `Machine.Uncalled`: machines without time limits, and without callback tasks
* `Execution.AsDeclared`: an execution with tokens and deadlines only where they are declared

## Main results

* `Frame.everywhere_atWork_moveAt`: a move keeps a property of all tasks at work
* `Execution.AsDeclared.moveAt?_expire`: nothing times out without time limits
* `Execution.AsDeclared.tokens_eq_nil`: without callback tasks no tokens are held
-/

namespace StateFlow

namespace Frame

/-! ## Properties of tasks at work -/

/-- A frame whose task, if it is at work in one, has a property. -/
def AtWork (Q : TaskWork → Prop) (f : Frame) : Prop :=
  match f.run with
  | .working _ _ (.task work) => Q work
  | _ => True

variable {Q : TaskWork → Prop} {m : Machine} {item? : Option Nat}

theorem AtWork.mono {Q' : TaskWork → Prop} {f : Frame} (h : f.AtWork Q)
    (hQ : ∀ work, Q work → Q' work) : f.AtWork Q' := by
  unfold AtWork at h ⊢
  split
  · next hrun =>
    rw [hrun] at h
    exact hQ _ h
  · trivial

theorem everywhere_atWork_ofOutcome (name : String) (outcome : Except Fault Departure) :
    Everywhere (AtWork Q) ⟨m, item?, .ofOutcome name outcome⟩ := by
  cases outcome with
  | ok departure => exact .of_items_eq_nil rfl trivial
  | error fault => exact .of_items_eq_nil rfl trivial

theorem everywhere_atWork_startItem (frame : MapFrame) (index : Nat) (item : Json) :
    Everywhere (AtWork Q) ⟨m, item?, frame.startItem index item⟩ := by
  unfold MapFrame.startItem
  split
  · exact .of_items_eq_nil rfl trivial
  · split
    · exact .of_items_eq_nil rfl trivial
    · exact .of_items_eq_nil rfl trivial

theorem everywhere_atWork_settle {frame : MapFrame} {active : List (Nat × Run)}
    (hactive : ∀ p ∈ active, Everywhere (AtWork Q) ⟨frame.machine, some p.1, p.2⟩)
    (s : Situation) (name : String) (input : Json) (delivered : List Json)
    (waiting : List (Nat × Json)) : Everywhere (AtWork Q)
      ⟨m, item?, (frame.settle s name input delivered active waiting).2⟩ :=
  everywhere_settle hactive (fun p _ => everywhere_atWork_startItem frame p.1 p.2)
    (fun _ _ _ _ => trivial) (fun _ => everywhere_atWork_ofOutcome name _)
    (fun _ _ _ => .of_items_eq_nil rfl trivial) s

/-- A task that begins holds no items. -/
theorem items_task_begin (task : TaskState) (scope : Scope) (s : Situation) (name : String)
    (input context : Json) :
    items ⟨m, item?, (task.begin scope s name input context).2⟩ = [] := by
  unfold TaskState.begin
  dsimp only
  split
  · rfl
  · split
    · rfl
    · split
      · unfold TaskState.beginCallback
        dsimp only
        split <;> rfl
      · unfold TaskState.beginPlain
        dsimp only
        split <;> rfl

variable {scope : Scope} {move : Run.LeafMove} {s s' : Situation}

/-- All tasks of a state that begins have what tasks have that begin. -/
theorem everywhere_atWork_begin
    (hbegin : ∀ (task : TaskState) (s : Situation) (name : String) (input : Json)
      (entered : Timestamp), AtWork Q ⟨m, item?,
        (task.begin scope s name input (Context.ofState scope.identity name entered)).2⟩)
    (state : State) (s : Situation) (name : String) (input : Json) (entered : Timestamp) :
    Everywhere (AtWork Q) ⟨m, item?,
      (state.begin scope s name input (Context.ofState scope.identity name entered)).2⟩ := by
  cases state with
  | pass p => exact everywhere_atWork_ofOutcome name _
  | task task =>
    exact .of_items_eq_nil (items_task_begin task scope s name input _)
      (hbegin task s name input entered)
  | wait wait =>
    unfold State.begin WaitState.begin
    dsimp only
    split
    · exact .of_items_eq_nil rfl trivial
    · exact .of_items_eq_nil rfl trivial
  | choice c => exact everywhere_atWork_ofOutcome name _
  | fail f => exact everywhere_atWork_ofOutcome name (f.outcome name)
  | succeed e => exact everywhere_atWork_ofOutcome name _
  | map settings itemProcessor? iterator? =>
    unfold State.begin MapSettings.begin
    dsimp only
    split
    · exact .of_items_eq_nil rfl trivial
    · split
      · exact .of_items_eq_nil rfl trivial
      · refine everywhere_atWork_settle (fun p hmem => ?_) s name input [] _
        obtain ⟨⟨index, item⟩, -, rfl⟩ := List.mem_map.mp hmem
        exact everywhere_atWork_startItem _ index item
  | parallel p => exact .of_items_eq_nil rfl trivial

theorem everywhere_atWork_moveLeaf {leaf : Frame} {new : Run}
    (hbegin : ∀ (task : TaskState) (s : Situation) (name : String) (input : Json)
      (entered : Timestamp), AtWork Q ⟨leaf.machine, leaf.item?,
        (task.begin scope s name input (Context.ofState scope.identity name entered)).2⟩)
    (hgoing : ∀ (work : TaskWork) (name : String) (s s' : Situation) (progress : Progress),
      Q work → work.Advances name s s' (.going progress) → Q { work with progress })
    (hleaf : leaf.AtWork Q)
    (hmove : Run.moveLeaf scope move leaf.machine leaf.item? s leaf.run = some (s', new)) :
    Everywhere (AtWork Q) { leaf with run := new } := by
  obtain ⟨m, item?, run⟩ := leaf
  cases Run.moves_of_moveLeaf hmove with
  | entering h =>
    cases h with
    | cancelled _ => exact .of_items_eq_nil rfl trivial
    | unknown _ _ => exact .of_items_eq_nil rfl trivial
    | refused _ _ _ => exact .of_items_eq_nil rfl trivial
    | begun _ _ _ hbegun =>
      obtain rfl : _ = new := congrArg Prod.snd hbegun
      exact everywhere_atWork_begin hbegin _ _ _ _ _
  | leaving h =>
    cases h with
    | cancelled _ => exact .of_items_eq_nil rfl trivial
    | next _ _ => exact .of_items_eq_nil rfl trivial
    | last _ _ => exact .of_items_eq_nil rfl trivial
  | going h => exact .of_items_eq_nil rfl (hgoing _ _ _ _ _ hleaf h)
  | done _ => exact everywhere_atWork_ofOutcome _ _
  | timedOut _ _ => exact .of_items_eq_nil rfl trivial
  | heeded _ => exact .of_items_eq_nil rfl trivial
  | slept _ => exact everywhere_atWork_ofOutcome _ _
  | woken _ => exact .of_items_eq_nil rfl trivial

/-- **A move keeps a property of all tasks at work** that tasks have when they begin, and that every
step of a task keeps. -/
theorem everywhere_atWork_moveAt {address : List Nat} {f : Frame} {run' : Run}
    (hbegin : ∀ (m : Machine) (item? : Option Nat) (task : TaskState) (s : Situation)
      (name : String) (input : Json) (entered : Timestamp), AtWork Q ⟨m, item?,
        (task.begin scope s name input (Context.ofState scope.identity name entered)).2⟩)
    (hgoing : ∀ (work : TaskWork) (name : String) (s s' : Situation) (progress : Progress),
      Q work → work.Advances name s s' (.going progress) → Q { work with progress })
    (hf : f.Everywhere (AtWork Q))
    (h : Run.moveAt scope move f.machine f.item? s address f.run = some (s', run')) :
    Everywhere (AtWork Q) { f with run := run' } := by
  refine hf.moveAt h (fun leaf s₁ new _ hleaf hmove => ?_) ?_
  · exact everywhere_atWork_moveLeaf (hbegin _ _) hgoing hleaf hmove
  · intro m item? name input frame delivered active waiting index new s₁ _ hactive
    exact everywhere_atWork_settle hactive s₁ name input delivered waiting

/-! ## Tokens -/

/-- A run none of whose tasks at work has a token holds none. -/
theorem tokens_eq_nil {f : Frame} (h : f.Everywhere (AtWork fun work => work.token? = none)) :
    f.run.tokens = [] := by
  induction h with
  | @intro f here _ ih =>
    obtain ⟨m, item?, run⟩ := f
    cases run with
    | working name input work =>
      cases work with
      | task work =>
        have hnone : work.token? = none := here
        simp [Run.tokens, Run.workTokens, hnone]
      | wait work => simp [Run.tokens, Run.workTokens]
      | map frame delivered active waiting =>
        simp only [Run.tokens, Run.workTokens]
        apply List.eq_nil_iff_forall_not_mem.mpr
        intro token htoken
        obtain ⟨p, hmem, hmine⟩ := Run.mem_activeTokens_iff.mp htoken
        rw [ih _ (List.mem_map_of_mem hmem)] at hmine
        cases hmine
    | entering name payload => simp [Run.tokens]
    | leaving name departure => simp [Run.tokens]
    | ended result => simp [Run.tokens]

end Frame

/-! ## What tasks declare -/

/-- A machine whose tasks, those inside Map states among them, have no time limit. -/
def Machine.Unlimited (m : Machine) : Prop := ∀ p ∈ m.tasks, p.2.timeout? = none

/-- A machine none of whose tasks, those inside Map states among them, is a callback task. -/
def Machine.Uncalled (m : Machine) : Prop := ∀ p ∈ m.tasks, p.2.isCallback = false

/-- A task at work that has a token and a deadline only where its definition asks for them. -/
structure TaskWork.AsDeclared (work : TaskWork) : Prop where
  token : work.task.isCallback = false → work.token? = none
  deadline : work.task.timeout? = none → work.deadline? = none

/-- A task gets its token and its deadline when it begins. -/
theorem TaskState.begin_asDeclared (task : TaskState) (scope : Scope) (s : Situation)
    (name : String) (input context : Json) (m : Machine) (item? : Option Nat) :
    Frame.AtWork TaskWork.AsDeclared ⟨m, item?, (task.begin scope s name input context).2⟩ := by
  have hdeadline : task.timeout? = none → task.timeout?.map s.world.deadlineAfter = none := by
    intro hnone
    rw [hnone]
    rfl
  unfold begin
  split
  · trivial
  · dsimp only
    split
    · trivial
    · by_cases hcallback : task.isCallback
      · rw [if_pos hcallback]
        unfold beginCallback
        dsimp only
        split
        · trivial
        · constructor
          · intro hnot
            rw [hcallback] at hnot
            cases hnot
          · exact hdeadline
      · rw [if_neg hcallback]
        unfold beginPlain
        dsimp only
        split
        · trivial
        · constructor
          · intro _
            rfl
          · exact hdeadline

/-- Only a callback task gives out a name when it begins. -/
theorem State.begin_named {state : State}
    (hcallback : ∀ task, state = .task task → task.isCallback = false) (scope : Scope)
    (s : Situation) (name : String) (input context : Json) :
    (state.begin scope s name input context).1.world.named = s.world.named := by
  cases state with
  | pass p => rfl
  | task task =>
    have hnot := hcallback task rfl
    unfold begin TaskState.begin
    dsimp only
    split
    · rfl
    · split
      · rfl
      · rw [hnot]
        simp only [Bool.false_eq_true, if_false]
        unfold TaskState.beginPlain
        split
        · rfl
        · exact (callFunction_world scope s _ _ context).1
  | wait wait =>
    unfold begin WaitState.begin
    dsimp only
    split <;> rfl
  | choice c => rfl
  | fail f => rfl
  | succeed e => rfl
  | map settings itemProcessor? iterator? =>
    unfold begin MapSettings.begin
    dsimp only
    split
    · rfl
    · split
      · rfl
      · obtain ⟨tokens, htokens⟩ := MapFrame.settle_fst _ s name input [] _ _
        rw [htokens]
        rfl
  | parallel p => rfl

/-- A leaf gives out a name only where its machine has a callback task. -/
theorem Run.moveLeaf_named {scope : Scope} {move : LeafMove} {m : Machine} {item? : Option Nat}
    {s s' : Situation} {run run' : Run}
    (hm : ∀ name task, m.state? name = some (.task task) → task.isCallback = false)
    (hmove : moveLeaf scope move m item? s run = some (s', run')) :
    s'.world.named = s.world.named := by
  cases moves_of_moveLeaf hmove with
  | entering h =>
    cases h with
    | cancelled _ => rfl
    | unknown _ _ => rfl
    | refused _ _ _ => rfl
    | begun _ hs _ hbegin =>
      obtain rfl : _ = s' := congrArg Prod.fst hbegin
      refine State.begin_named (fun task heq => ?_) _ _ _ _ _
      exact hm _ task (heq ▸ hs)
  | leaving h => cases h <;> rfl
  | going h => exact h.world.1
  | done h => exact h.world.1
  | timedOut _ _ => rfl
  | heeded _ => rfl
  | slept _ => rfl
  | woken _ => rfl

namespace Execution

/-- An execution whose runs stand in the levels of its machine, and whose tasks have tokens and
deadlines only where they declare them. -/
structure AsDeclared (e : Execution) : Prop where
  sound : e.Sound fun _ _ => True
  tasks : ∀ root, e.frame? = some root → root.Everywhere (Frame.AtWork TaskWork.AsDeclared)

variable {e e' : Execution} {services : Services} {w w' : World}
  {leaf? : Option (Run.LeafMove × List Nat)} {root leaf : Frame} {address : List Nat}

namespace AsDeclared

theorem create (identity : Identity) (machine : Machine) :
    (Execution.create identity machine).AsDeclared :=
  ⟨trivial, nofun⟩

/-- **An execution keeps to what its machine declares.** -/
theorem change (he : e.AsDeclared) (h : e.Change services w leaf? e') : e'.AsDeclared := by
  constructor
  · exact h.sound he.sound
  · intro root' hroot'
    cases h with
    | same => exact he.tasks root' hroot'
    | started h =>
      obtain ⟨-, started, rfl⟩ := start?_eq_some h
      cases hroot'
      exact .of_items_eq_nil rfl trivial
    | moved h =>
      obtain ⟨run, deadline?, s, run', hphase, hmove, -, rfl⟩ := moveAt?_eq_some h
      have hrun := he.tasks ⟨e.machine, none, run⟩ (by simp [frame?, hphase])
      rcases withRun_cases (e.inSituation s) deadline? run' with ⟨result, -, heq⟩ | ⟨-, heq⟩
      · rw [heq] at hroot'
        cases hroot'
      · rw [heq] at hroot'
        cases hroot'
        refine Frame.everywhere_atWork_moveAt (fun m item? task s name input entered => ?_)
          (fun work name s s' progress hwork _ => ?_) hrun hmove
        · exact task.begin_asDeclared _ s name input _ m item?
        · exact ⟨hwork.token, hwork.deadline⟩
    | aborted h =>
      obtain ⟨run, deadline?, report, -, -, -, rfl⟩ := abort?_eq_some h
      cases hroot'
    | expired h =>
      obtain ⟨run, deadline, -, -, rfl⟩ := expire?_eq_some h
      cases hroot'
    | cancelled => exact he.tasks root' hroot'

/-- The tasks at work are tasks of the machine, each with what it declares. -/
theorem everywhere (he : e.AsDeclared) (hroot : e.frame? = some root) :
    root.Everywhere (Frame.AtWork fun work =>
      (∃ name, (name, work.task) ∈ e.machine.tasks) ∧ work.AsDeclared) := by
  have htasks := he.tasks root hroot
  obtain ⟨run, deadline?, hphase, rfl⟩ := frame?_eq_some hroot
  have hsound : Frame.Everywhere (Frame.Sound e.machine fun _ _ => True)
      ⟨e.machine, none, run⟩ := by
    simpa only [Sound, hphase] using he.sound
  refine (hsound.and htasks).mono fun f hf => ?_
  obtain ⟨m, item?, run⟩ := f
  obtain ⟨hsound, htask⟩ := hf
  cases run with
  | working name input work =>
    cases work with
    | task work => exact ⟨⟨name, hsound.level.task_mem hsound.run⟩, htask⟩
    | wait work => trivial
    | map frame delivered active waiting => trivial
  | entering name payload => trivial
  | leaving name departure => trivial
  | ended result => trivial

/-- Nothing times out where no task has a time limit. -/
theorem moveAt?_expire (he : e.AsDeclared) (hm : e.machine.Unlimited) (w : World)
    (address : List Nat) : e.moveAt? services w .expire address = none := by
  cases hmove : e.moveAt? services w .expire address with
  | none => rfl
  | some p =>
    exfalso
    obtain ⟨w', e'⟩ := p
    obtain ⟨run, deadline?, s, run', hphase, hmoved, -, -⟩ := moveAt?_eq_some hmove
    obtain ⟨leaf, s₁, new, hat, hleaf, -⟩ := Run.moveAt_leaf hmoved
    have htask := ((he.everywhere (by simp [frame?, hphase])).of_at? hat).here
    obtain ⟨m, item?, old⟩ := leaf
    cases old with
    | working name input work =>
      cases work with
      | task work =>
        obtain ⟨⟨name, hmem⟩, hwork⟩ := htask
        have hdeadline := hwork.deadline (hm _ hmem)
        simp [Run.moveLeaf, Run.expireLeaf, TaskWork.expire, TaskWork.isDue, hdeadline] at hleaf
      | wait work => cases hleaf
      | map frame delivered active waiting => cases hleaf
    | entering name payload => cases hleaf
    | leaving name departure => cases hleaf
    | ended result => cases hleaf

/-- Where no task is a callback task no tokens are held. -/
theorem tokens_eq_nil (he : e.AsDeclared) (hm : e.machine.Uncalled) : e.tokens = [] := by
  unfold tokens
  split
  · next run deadline? hphase =>
    have hroot : e.frame? = some ⟨e.machine, none, run⟩ := by simp [frame?, hphase]
    refine Frame.tokens_eq_nil ((he.everywhere hroot).mono fun f hf => hf.mono ?_)
    rintro work ⟨⟨name, hmem⟩, hwork⟩
    exact hwork.token (hm _ hmem)
  · rfl

/-- Without callback tasks no names are given out. -/
theorem moveAt?_named (he : e.AsDeclared) (hm : e.machine.Uncalled) {move : Run.LeafMove}
    (h : e.moveAt? services w move address = some (w', e')) : w'.named = w.named := by
  obtain ⟨run, deadline?, s, run', hphase, hmove, rfl, -⟩ := moveAt?_eq_some h
  obtain ⟨leaf, s₁, new, hat, hleaf, tokens, rfl⟩ := Run.moveAt_leaf hmove
  have hsound : Frame.Everywhere (Frame.Sound e.machine fun _ _ => True)
      ⟨e.machine, none, run⟩ := by
    simpa only [Sound, hphase] using he.sound
  have hnamed := Run.moveLeaf_named (fun name task hs =>
    hm (name, task) ((hsound.of_at? hat).here.level.task_mem hs)) hleaf
  exact hnamed

end AsDeclared

end Execution

end StateFlow
