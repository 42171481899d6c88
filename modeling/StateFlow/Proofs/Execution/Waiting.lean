import StateFlow.Proofs.Execution.Cancellation
import StateFlow.Proofs.Execution.Tasks

/-!
# What an execution waits for

A leaf that cannot move waits for a time, or for the report of a token; or it waits for a function
that never answers.  Where every function that can be called answers in the end, only the first two
are left, and since an execution waits for its front, it can move again as soon as that has come.

## Main definitions

* `Services.Answer`: every function that can be called answers in the end
* `Execution.Answers`: so do the functions of all tasks at work in an execution

## Main results

* `Run.isReady_or_awaits`: what a leaf waits for that waits for no function
* `Frame.Front.candidates_ne_nil`: a run can move if its front is ready
* `Execution.Answers.change`: no change calls a function that never answers
-/

namespace StateFlow

/-- Every function that can be called answers in the end. -/
def Services.Answer (services : Services) : Prop :=
  ∀ binding handler, services.invoker binding = some handler →
    ∀ earlierCalls input context, (handler earlierCalls input context).Answers

/-- A task at work whose function answers in the end, or has answered. -/
def TaskWork.Answers (work : TaskWork) : Prop := work.progress.Answers

/-! ## Leaves -/

namespace Run

variable {m : Machine} {item? : Option Nat} {run : Run}

theorem candidates_of_isLeaf (h : run.isLeaf) (s : Situation) (trail : List Nat) :
    run.candidates s trail = run.leafCandidates s trail.reverse := by
  unfold candidates
  split
  · cases h
  · rfl

/-- **What a leaf waits for**: a time or the report of a token, if not a function. -/
theorem isReady_or_awaits (hleaf : run.isLeaf) (hsettled : Frame.Settled ⟨m, item?, run⟩)
    (hanswers : Frame.AtWork TaskWork.Answers ⟨m, item?, run⟩) :
    (∃ time, ∀ s : Situation, time ≤ s.world.clock → run.isReady s) ∨
      ∃ token ∈ run.tokens, ∀ s : Situation,
        s.world.tokens.peek token ≠ .empty → run.isReady s := by
  cases run with
  | entering name input => exact .inl ⟨0, fun s _ => rfl⟩
  | leaving name departure => exact .inl ⟨0, fun s _ => rfl⟩
  | ended result => cases hleaf
  | working name input work =>
    cases work with
    | map frame delivered active waiting => cases hleaf
    | wait work =>
      refine .inl ⟨work.wakeAt, fun s htime => ?_⟩
      rw [isReady, Bool.or_eq_true]
      exact .inl (decide_eq_true htime)
    | task work =>
      obtain ⟨task, progress, token?, deadline?⟩ := work
      cases progress with
      | acting behaviour =>
        refine .inl ⟨0, fun s _ => ?_⟩
        rw [isReady, Bool.or_eq_true]
        exact .inl (Behaviour.isSome_advance hanswers name token? s)
      | paused wakeAt rest =>
        refine .inl ⟨wakeAt, fun s htime => ?_⟩
        simp only [isReady, TaskWork.advance, if_pos htime, Bool.or_eq_true]
        exact .inl rfl
      | awaiting =>
        obtain ⟨token, rfl⟩ := Option.isSome_iff_exists.mp hsettled
        refine .inr ⟨token, by simp [tokens, workTokens], fun s hreported => ?_⟩
        rw [isReady, Bool.or_eq_true]
        left
        simp only [TaskWork.advance]
        cases hfound : s.world.tokens.peek token with
        | empty => exact (hreported hfound).elim
        | completion settlement =>
          cases settlement with
          | success output => rfl
          | failure error cause? => cases cause? <;> rfl
        | closed => rfl
        | none => rfl

end Run

/-! ## The front -/

namespace Frame.Front

variable {f leaf : Frame} {path : List (String × Nat)}

/-- A run can move if its front is ready. -/
theorem candidates_ne_nil (h : f.Front path leaf) {s : Situation} (hready : leaf.run.isReady s)
    (trail : List Nat) : f.run.candidates s trail ≠ [] := by
  induction h generalizing trail with
  | leaf hleaf =>
    rw [Run.candidates_of_isLeaf hleaf]
    unfold Run.leafCandidates
    rw [if_pos hready]
    exact List.cons_ne_nil _ _
  | item _ ih =>
    rw [Run.candidates, Run.activeCandidates]
    exact List.append_ne_nil_of_left_ne_nil (ih hready _) _

/-- What the front waits on, the run waits on. -/
theorem tokens_subset (h : f.Front path leaf) : leaf.run.tokens ⊆ f.run.tokens := by
  induction h with
  | leaf _ => exact List.Subset.refl _
  | @item m item? name input frame delivered index run rest waiting path leaf _ ih =>
    intro token htoken
    simp only [Run.tokens, Run.workTokens]
    exact Run.mem_activeTokens_iff.mpr ⟨(index, run), List.mem_cons_self, ih htoken⟩

end Frame.Front

/-! ## Functions that answer -/

theorem callFunction_answers {scope : Scope} (hanswer : scope.services.Answer) (s : Situation)
    (binding : Binding) (input context : Json) :
    (callFunction scope s binding input context).2.Answers := by
  unfold callFunction
  split
  · trivial
  · next handler hhandler => exact hanswer binding handler hhandler _ input context

theorem TaskState.begin_answers {scope : Scope} (hanswer : scope.services.Answer)
    (task : TaskState) (s : Situation) (name : String) (input context : Json) (m : Machine)
    (item? : Option Nat) :
    Frame.AtWork TaskWork.Answers ⟨m, item?, (task.begin scope s name input context).2⟩ := by
  unfold begin
  split
  · trivial
  · dsimp only
    split
    · trivial
    · split
      · unfold beginCallback
        dsimp only
        split
        · trivial
        · exact callFunction_answers hanswer _ _ _ _
      · unfold beginPlain
        split
        · trivial
        · exact callFunction_answers hanswer _ _ _ _

namespace Execution

variable {e e' : Execution} {services : Services} {w : World}
  {leaf? : Option (Run.LeafMove × List Nat)}

/-- An execution in which the functions of all tasks at work answer in the end. -/
def Answers (e : Execution) : Prop :=
  ∀ root, e.frame? = some root → root.Everywhere (Frame.AtWork TaskWork.Answers)

/-- **No change calls a function that never answers**, if there is none. -/
theorem Answers.change (he : e.Answers) (hanswer : services.Answer)
    (h : e.Change services w leaf? e') : e'.Answers := by
  cases h with
  | same => exact he
  | started h =>
    obtain ⟨-, started, rfl⟩ := start?_eq_some h
    intro root hroot
    obtain rfl := Option.some.inj hroot
    exact .of_items_eq_nil rfl trivial
  | moved h =>
    obtain ⟨run, deadline?, s, run', hphase, hmove, -, rfl⟩ := moveAt?_eq_some h
    have hrun : Frame.Everywhere (Frame.AtWork TaskWork.Answers) ⟨e.machine, none, run⟩ :=
      he _ (by simp [frame?, hphase])
    have hrun' : Frame.Everywhere (Frame.AtWork TaskWork.Answers) ⟨e.machine, none, run'⟩ := by
      refine Frame.everywhere_atWork_moveAt (fun m item? task s name input entered => ?_)
        (fun work name s s' progress hwork hadvances => ?_) hrun hmove
      · exact task.begin_answers hanswer s name input _ m item?
      · exact hadvances.weight_lt.2 hwork
    rcases withRun_cases (e.inSituation s) deadline? run' with ⟨result, -, heq⟩ | ⟨-, heq⟩
    · rw [heq]
      intro root hroot
      cases hroot
    · rw [heq]
      intro root hroot
      obtain rfl := Option.some.inj hroot
      exact hrun'
  | aborted h =>
    obtain ⟨_, _, _, -, -, -, rfl⟩ := abort?_eq_some h
    intro root hroot
    cases hroot
  | expired h =>
    obtain ⟨_, _, -, -, rfl⟩ := expire?_eq_some h
    intro root hroot
    cases hroot
  | cancelled => exact he

end Execution

end StateFlow
