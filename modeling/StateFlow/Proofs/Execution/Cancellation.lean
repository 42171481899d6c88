import StateFlow.Proofs.Execution.Change
import StateFlow.Proofs.Execution.Front

/-!
# Cancelled executions

Once an execution is cancelled, no leaf of it enters or leaves a state any more.  A leaf can still
finish the work of its state, and then it has to leave that state, where it sees the cancellation.
So whatever the leaf does, it winds down: it has ever less to do, and ends in a fault.

An execution as a whole follows its front.  What the other items of a Map state come to does not
matter, since none is handed over any more.  If the state at the front fails by itself, its fault is
the result all the same, as nobody looks at the cancellation on the way; otherwise the result is the
cancellation.

## Main definitions

* `Run.weight`, `Run.Answers`: what a leaf has left to do, and that it can be done
* `Run.WindsDown`: a leaf has less to do than before, or has failed
* `Execution.Settled`: an execution with a settled run, or with the event that ended it
* `Execution.Front`, `Execution.FailsItself`: what an execution waits for, and its failing by itself
* `Execution.Unwinds`: a cancelled execution that has not finished

## Main results

* `Run.moveLeaf_cancelled`: a move of a leaf of a cancelled execution winds it down
* `Execution.FailsItself.result?`: a failure at the front is passed on to the end
* `Execution.Unwinds.change`: a change of a cancelled execution
* `Execution.Unwinds.exists_move`: a cancelled execution can go on
-/

namespace StateFlow

/-! ## What is left to do -/

/-- How much a function has left to do. -/
def Behaviour.weight : Behaviour → Nat
  | answer _ | hang | panic _ => 1
  | pause _ rest => rest.weight + 2
  | cancel rest | settle _ _ rest | settleLater _ _ _ rest => rest.weight + 1

namespace Progress

/-- How much a task has left to do until it has its result. -/
def weight : Progress → Nat
  -- whatever the function does, the token and the end of the state come after it
  | acting behaviour => behaviour.weight + 2
  | paused _ rest => rest.weight + 3
  | awaiting => 2

/-- The function of a task answers in the end, or has answered. -/
def Answers : Progress → Prop
  | acting behaviour | paused _ behaviour => behaviour.Answers
  | awaiting => True

theorem one_lt_weight (progress : Progress) : 1 < progress.weight := by
  cases progress with
  | acting behaviour => cases behaviour <;> simp only [weight, Behaviour.weight] <;> omega
  | paused wakeAt rest =>
    rw [weight]
    omega
  | awaiting => exact Nat.one_lt_two

end Progress

namespace Run

/-- How much a leaf has left to do until it comes to the end of its state. -/
def weight : Run → Nat
  | working _ _ (.task work) => work.progress.weight
  | working _ _ (.wait _) => 2
  | _ => 1

/-- A leaf does not wait for a function that never answers. -/
def Answers : Run → Prop
  | working _ _ (.task work) => work.progress.Answers
  | _ => True

theorem weight_pos (run : Run) : 0 < run.weight := by
  unfold weight
  split
  · exact Nat.lt_of_succ_lt (Progress.one_lt_weight _)
  · exact Nat.two_pos
  · exact Nat.one_pos

/-- A leaf has less to do than before, or has failed; only at work does it fail by itself. -/
def WindsDown (run new : Run) : Prop :=
  (new.isLeaf ∧ new.weight < run.weight ∧ (run.Answers → new.Answers)) ∨
    ∃ fault, new = .ended (.error fault) ∧
      (fault = .cancelled ∨ ∃ state input work, run = .working state input work)

/-- A state that has its outcome is left, or has failed. -/
theorem WindsDown.ofOutcome {name state : String} {input : Json} {work : Work}
    (hweight : 1 < (working name input work).weight) (outcome : Except Fault Departure) :
    WindsDown (.working name input work) (.ofOutcome state outcome) := by
  cases outcome with
  | ok departure => exact .inl ⟨rfl, hweight, fun _ => trivial⟩
  | error fault => exact .inr ⟨fault, rfl, .inr ⟨name, input, work, rfl⟩⟩

theorem WindsDown.cancelled (run : Run) : WindsDown run (.ended (.error .cancelled)) :=
  .inr ⟨.cancelled, rfl, .inl rfl⟩

end Run

/-! ## Leaves -/

theorem Behaviour.weight_of_rest? {b rest : Behaviour} (h : b.rest? = some rest) :
    rest.weight < b.weight ∧ (b.Answers → rest.Answers) := by
  cases b with
  | answer outcome => cases h
  | hang | panic => cases h
  | pause milliseconds rest =>
    cases h
    exact ⟨Nat.lt_add_of_pos_right Nat.two_pos, id⟩
  | cancel rest =>
    cases h
    exact ⟨Nat.lt_succ_self _, id⟩
  | settle token settlements rest =>
    cases h
    exact ⟨Nat.lt_succ_self _, id⟩
  | settleLater milliseconds token settlements rest =>
    cases h
    exact ⟨Nat.lt_succ_self _, id⟩

/-- A function that answers in the end can always take its next step. -/
theorem Behaviour.isSome_advance {b : Behaviour} (h : b.Answers) (state : String)
    (token? : Option String) (s : Situation) : (b.advance state token? s).isSome := by
  cases b with
  | answer outcome => cases outcome <;> rfl
  | pause milliseconds rest => cases milliseconds <;> rfl
  | cancel rest => rfl
  | settle token settlements rest =>
    simp only [advance]
    split <;> rfl
  | settleLater milliseconds token settlements rest => rfl
  | hang | panic => exact h.elim

/-- A step of a task that goes on leaves less to do. -/
theorem TaskWork.Advances.weight_lt {work : TaskWork} {name : String} {s s' : Situation}
    {progress : Progress} (h : work.Advances name s s' (.going progress)) :
    progress.weight < work.progress.weight ∧ (work.progress.Answers → progress.Answers) := by
  cases h with
  | acting hprogress h =>
    rw [hprogress]
    cases Behaviour.advances_of_advance h with
    | returned _ => exact ⟨Nat.lt_succ_self 2, fun _ => trivial⟩
    | asleep => exact ⟨Nat.lt_succ_self _, id⟩
    | acting hrest =>
      obtain ⟨hweight, hanswers⟩ := Behaviour.weight_of_rest? hrest
      exact ⟨Nat.add_lt_add_right hweight 2, hanswers⟩
  | awake hprogress _ =>
    rw [hprogress]
    exact ⟨Nat.lt_succ_self _, id⟩

namespace Run

variable {scope : Scope} {move : LeafMove} {m : Machine} {item? : Option Nat} {s s' : Situation}
  {run new : Run}

/-- **A leaf of a cancelled execution winds down**, and the execution stays cancelled. -/
theorem moveLeaf_cancelled (hs : s.cancelled = true)
    (hmove : moveLeaf scope move m item? s run = some (s', new)) :
    s'.cancelled = true ∧ run.WindsDown new := by
  have htask : ∀ (name : String) (input : Json) (work : TaskWork),
      1 < (working name input (.task work)).weight := fun _ _ work => work.progress.one_lt_weight
  cases moves_of_moveLeaf hmove with
  | entering h =>
    obtain ⟨rfl, rfl⟩ := h.of_cancelled hs
    exact ⟨hs, .cancelled _⟩
  | leaving h =>
    obtain ⟨rfl, rfl⟩ := h.of_cancelled hs
    exact ⟨hs, .cancelled _⟩
  | going h => exact ⟨h.keeps.cancelled hs, .inl ⟨rfl, h.weight_lt⟩⟩
  | done h => exact ⟨h.keeps.cancelled hs, .ofOutcome (htask _ _ _) _⟩
  | @timedOut name input work _ => exact ⟨hs, .inr ⟨_, rfl, .inr ⟨name, input, _, rfl⟩⟩⟩
  | heeded _ => exact ⟨hs, .cancelled _⟩
  | @slept name input work _ =>
    have hwait : 1 < (working name input (.wait work)).weight := Nat.one_lt_two
    exact ⟨hs, .ofOutcome hwait _⟩
  | woken _ => exact ⟨hs, .cancelled _⟩

/-- A leaf of a cancelled execution that waits for nothing that never comes can move, in time. -/
theorem exists_moveLeaf_cancelled (scope : Scope) (hrun : run.isLeaf) (hanswers : run.Answers)
    (hsettled : Frame.Settled ⟨m, item?, run⟩) :
    ∃ time, ∀ s : Situation, s.cancelled = true → time ≤ s.world.clock →
      ∃ move, (moveLeaf scope move m item? s run).isSome := by
  cases run with
  | entering name input => exact ⟨0, fun s _ _ => ⟨.step, rfl⟩⟩
  | leaving name departure => exact ⟨0, fun s _ _ => ⟨.step, rfl⟩⟩
  | ended result => cases hrun
  | working name input work =>
    cases work with
    | map frame delivered active waiting => cases hrun
    | wait work =>
      refine ⟨0, fun s hs _ => ⟨.heed, ?_⟩⟩
      rw [moveLeaf, heedLeaf, WaitWork.heed, if_pos hs]
      rfl
    | task work =>
      obtain ⟨task, progress, token?, deadline?⟩ := work
      cases progress with
      -- a function at work does not see the cancellation, and takes its next step
      | acting behaviour =>
        refine ⟨0, fun s _ _ => ⟨.step, ?_⟩⟩
        rw [moveLeaf, stepLeaf, TaskWork.step, Option.isSome_map]
        exact Behaviour.isSome_advance hanswers name token? s
      | paused wakeAt rest =>
        refine ⟨wakeAt, fun s _ htime => ⟨.step, ?_⟩⟩
        simp only [moveLeaf, stepLeaf, TaskWork.step, TaskWork.advance, if_pos htime]
        rfl
      | awaiting =>
        obtain ⟨token, rfl⟩ := Option.isSome_iff_exists.mp hsettled
        refine ⟨0, fun s hs _ => ⟨.heed, ?_⟩⟩
        simp only [moveLeaf, heedLeaf, TaskWork.heed, if_pos hs]
        rfl

end Run

/-! ## Executions -/

namespace Execution

variable {e e' : Execution} {services : Services} {w w' : World}
  {leaf? : Option (Run.LeafMove × List Nat)} {path : List (String × Nat)} {run : Run}

/-- An execution whose run is settled and has no deadline that the definition does not declare, or
that has finished with the event that tells its result, unless it was aborted. -/
def Settled (e : Execution) : Prop :=
  match e.phase with
  | .created => True
  | .running run deadline? =>
    run.result? = none ∧ Frame.Everywhere Frame.Settled ⟨e.machine, none, run⟩ ∧
      (e.machine.timeout? = none → deadline? = none)
  | .finished result =>
    e.events.getLast? = some (.ending result) ∨ ∃ report, result = .error (.executionAborted report)

theorem result?_finish (e : Execution) (result : Except Fault Json) :
    (e.finish result).result? = some result := rfl

theorem settled_finish (e : Execution) (result : Except Fault Json) : (e.finish result).Settled :=
  .inl List.getLast?_concat

theorem Settled.getLast? (he : e.Settled) {result : Except Fault Json}
    (hresult : e.result? = some result) (hunaborted : (Run.ended result).Unaborted) :
    e.events.getLast? = some (.ending result) := by
  simp only [Settled, result?_eq_some_iff.mp hresult] at he
  rcases he with hlast | ⟨report, rfl⟩
  · exact hlast
  · cases hunaborted

theorem settled_start? (h : e.start? w = some e') : e'.Settled := by
  obtain ⟨-, started, rfl⟩ := start?_eq_some h
  refine ⟨rfl, .of_items_eq_nil rfl trivial, fun htimeout => ?_⟩
  rw [htimeout]
  rfl

/-- An execution stays settled. -/
theorem Settled.change (he : e.Settled) (h : e.Change services w leaf? e') : e'.Settled := by
  cases h with
  | same => exact he
  | started h => exact settled_start? h
  | moved h =>
    obtain ⟨run, deadline?, s, run', hphase, hmove, -, rfl⟩ := moveAt?_eq_some h
    simp only [Settled, hphase] at he
    obtain ⟨-, hrun, hdeadline⟩ := he
    rcases withRun_cases (e.inSituation s) deadline? run' with ⟨result, -, heq⟩ | ⟨hunended, heq⟩
    · rw [heq]
      exact settled_finish _ result
    · rw [heq]
      exact ⟨hunended, Frame.everywhere_settled_moveAt hrun hmove, hdeadline⟩
  | aborted h =>
    obtain ⟨run, deadline?, report, -, -, -, rfl⟩ := abort?_eq_some h
    exact .inr ⟨report, rfl⟩
  | expired h =>
    obtain ⟨run, deadline, -, -, rfl⟩ := expire?_eq_some h
    exact settled_finish e _
  | cancelled => exact he

/-- A result stays. -/
theorem Change.result? (h : e.Change services w leaf? e') {result : Except Fault Json}
    (hresult : e.result? = some result) : e'.result? = some result := by
  have hphase := result?_eq_some_iff.mp hresult
  cases h with
  | same => exact hresult
  | started h =>
    have hcreated := (start?_eq_some h).1
    rw [hphase] at hcreated
    cases hcreated
  | moved h =>
    obtain ⟨_, _, _, _, hrunning, -⟩ := moveAt?_eq_some h
    rw [hphase] at hrunning
    cases hrunning
  | aborted h =>
    obtain ⟨_, _, _, hrunning, -⟩ := abort?_eq_some h
    rw [hphase] at hrunning
    cases hrunning
  | expired h =>
    obtain ⟨_, _, hrunning, -⟩ := expire?_eq_some h
    rw [hphase] at hrunning
    cases hrunning
  | cancelled => exact hresult

/-! ### The front of an execution -/

/-- What an execution without a deadline waits for in the end; before its first step, that is the
entry into its machine. -/
inductive Front (e : Execution) : List (String × Nat) → Run → Prop
  | created (h : e.phase = .created) : Front e [] (.start e.machine e.identity.input)
  | running {run : Run} {path : List (String × Nat)} {leaf : Frame}
      (hphase : e.phase = .running run none) (h : Frame.Front ⟨e.machine, none, run⟩ path leaf) :
      Front e path leaf.run

/-- The state that an execution waits for fails by itself, by a move that does not heed a
cancellation. -/
def FailsItself (e : Execution) (services : Services) (w : World) (move : Run.LeafMove)
    (path : List (String × Nat)) (fault : Fault) : Prop :=
  ∃ root leaf state input work s, e.frame? = some root ∧ root.Front path leaf ∧
    leaf.run = .working state input work ∧ fault ≠ .cancelled ∧
    Run.moveLeaf ⟨services, e.identity⟩ move leaf.machine leaf.item? (e.situation w) leaf.run =
      some (s, .ended (.error fault))

/-- No state fails by itself with what aborts an execution, nor is its fault passed on as that. -/
theorem FailsItself.isAborted_passedOn {move : Run.LeafMove} {fault : Fault}
    (h : e.FailsItself services w move path fault) : (fault.passedOn path).isAborted = false := by
  obtain ⟨_, leaf, _, _, _, s, -, -, -, -, hmove⟩ := h
  cases path with
  | nil => exact (Run.moves_of_moveLeaf hmove).unaborted
  | cons p path => exact isAborted_itemFault p.1 p.2 _

theorem Front.exists_of_settled (he : e.Settled) (hresult : e.result? = none)
    (htimeout : e.machine.timeout? = none) : ∃ path run, e.Front path run := by
  unfold Settled at he
  split at he
  · next hphase => exact ⟨[], _, .created hphase⟩
  · next run deadline? hphase =>
    obtain ⟨hrun, hsettled, hdeadline⟩ := he
    obtain ⟨path, leaf, hfront⟩ := Frame.Front.exists_of_settled hsettled hrun
    rw [hdeadline htimeout] at hphase
    exact ⟨path, leaf.run, .running hphase hfront⟩
  · next result hphase =>
    rw [result?_eq_some_iff.mpr hphase] at hresult
    cases hresult

theorem Front.result? (h : e.Front path run) : e.result? = none := by
  cases h with
  | created hphase => rw [Execution.result?, hphase]
  | running hphase _ => rw [Execution.result?, hphase]

theorem withRun_cancelled (e : Execution) (deadline? : Option Nat) (run : Run) :
    (e.withRun deadline? run).cancelled = e.cancelled := by
  rcases withRun_cases e deadline? run with ⟨result, -, heq⟩ | ⟨-, heq⟩
  · rw [heq]
    rfl
  · rw [heq]

theorem Front.withRun {leaf : Frame} (h : Frame.Front ⟨e.machine, none, run⟩ path leaf) :
    (e.withRun none run).Front path leaf.run := by
  rcases withRun_cases e none run with ⟨result, rfl, -⟩ | ⟨-, heq⟩
  · cases h.result?
  · rw [heq]
    exact .running rfl h

/-- A failure at the front is passed on to the end. -/
theorem FailsItself.result? {move : Run.LeafMove} {fault : Fault}
    (h : e.FailsItself services w move path fault)
    (hmove : e.moveAt? services w move (addressOf path) = some (w', e')) :
    e'.result? = some (.error (fault.passedOn path)) := by
  obtain ⟨root, leaf, _, _, _, s, hroot, hfront, -, -, hleaf⟩ := h
  obtain ⟨run, deadline?, s', run', hphase, hrun, -, rfl⟩ := moveAt?_eq_some hmove
  obtain rfl : (⟨e.machine, none, run⟩ : Frame) = root := by simpa [frame?, hphase] using hroot
  -- the move of the execution is one of its front, and the front has failed
  obtain ⟨s₁, new, hnew, -, hfails⟩ := hfront.moveAt_self hrun
  rw [hleaf] at hnew
  obtain ⟨-, rfl⟩ := Prod.mk.inj (Option.some.inj hnew)
  rw [hfails fault rfl]
  exact result?_finish _ _

/-! ### Unwinding -/

/-- A cancelled execution that waits for a leaf in the end, without a deadline. -/
structure Unwinds (e : Execution) (path : List (String × Nat)) (run : Run) : Prop where
  settled : e.Settled
  cancelled : e.cancelled = true
  timeout : e.machine.timeout? = none
  front : e.Front path run

/-- What a cancelled execution has come to after a move of its front: this has less to do, or the
execution has ended, with its cancellation unless the front failed by itself. -/
def UnwindsTo (services : Services) (w : World) (move : Run.LeafMove) (path : List (String × Nat))
    (run : Run) (e e' : Execution) : Prop :=
  (∃ run', e'.Unwinds path run' ∧ run'.weight < run.weight ∧ (run.Answers → run'.Answers)) ∨
  e'.result? = some (.error .cancelled) ∨
  ∃ fault, e.FailsItself services w move path fault ∧
    e'.result? = some (.error (fault.passedOn path))

theorem Unwinds.moveAt? (h : e.Unwinds path run) {move : Run.LeafMove} {address : List Nat}
    (hmove : e.moveAt? services w move address = some (w', e')) :
    (address ≠ addressOf path ∧ e'.Unwinds path run) ∨
      address = addressOf path ∧ UnwindsTo services w move path run e e' := by
  have hsettled' : e'.Settled := h.settled.change (.moved hmove)
  obtain ⟨root, deadline?, s, root', hphase, hroot', -, rfl⟩ := moveAt?_eq_some hmove
  have htimeout' : ((e.inSituation s).withRun deadline? root').machine.timeout? = none := by
    rw [(Change.moved hmove).fixed.1, h.timeout]
  have hcancelled' : ((e.inSituation s).withRun deadline? root').cancelled = true := by
    obtain ⟨_, s₁, _, -, hmoved, tokens, rfl⟩ := Run.moveAt_leaf hroot'
    rw [withRun_cancelled]
    exact (Run.moveLeaf_cancelled h.cancelled hmoved).1
  cases h.front with
  | created hcreated =>
    rw [hcreated] at hphase
    cases hphase
  | @running _ path leaf hrunning hfront =>
    rw [hrunning] at hphase
    obtain ⟨rfl, rfl⟩ := Phase.running.inj hphase
    by_cases haddress : address = addressOf path
    · subst haddress
      refine .inr ⟨rfl, ?_⟩
      obtain ⟨s₂, new, hnew, hstays, hfails⟩ := hfront.moveAt_self hroot'
      rcases (Run.moveLeaf_cancelled h.cancelled hnew).2 with
        ⟨hleaf, hweight, hanswers⟩ | ⟨fault, rfl, hself⟩
      · have hfront' := Front.withRun (e := e.inSituation s) (hstays hleaf)
        exact .inl ⟨new, ⟨hsettled', hcancelled', htimeout', hfront'⟩, hweight, hanswers⟩
      · -- the front has ended, and the run with it
        rw [hfails fault rfl]
        by_cases hfault : fault = .cancelled
        · rw [hfault, Fault.passedOn_cancelled]
          exact .inr (.inl (result?_finish _ _))
        · obtain ⟨state, input, work, hwork⟩ := hself.resolve_left hfault
          exact .inr (.inr ⟨fault, ⟨_, leaf, state, input, work, s₂, by simp [frame?, hrunning],
            hfront, hwork, hfault, hnew⟩, result?_finish _ _⟩)
    · have hfront' := Front.withRun (e := e.inSituation s) (hfront.moveAt_of_ne hroot' haddress)
      exact .inl ⟨haddress, hsettled', hcancelled', htimeout', hfront'⟩

theorem Unwinds.start? (h : e.Unwinds path run) (hstart : e.start? w = some e') :
    e'.Unwinds path run := by
  have hsettled' : e'.Settled := settled_start? hstart
  obtain ⟨hcreated, started, rfl⟩ := start?_eq_some hstart
  refine ⟨hsettled', h.cancelled, h.timeout, ?_⟩
  cases h.front with
  | created _ =>
    have hleaf : Frame.Front ⟨e.machine, none, .start e.machine e.identity.input⟩ [] _ := .leaf rfl
    rw [h.timeout]
    exact Front.withRun (e := { e with events := e.events ++ [started] }) hleaf
  | running hphase _ =>
    rw [hcreated] at hphase
    cases hphase

/-- **A change of a cancelled execution** leaves its front as it is, or is a move of the front, or
aborts the execution. -/
theorem Unwinds.change (h : e.Unwinds path run) (hchange : e.Change services w leaf? e') :
    ((∀ move, leaf? ≠ some (move, addressOf path)) ∧ e'.Unwinds path run) ∨
      (∃ move, leaf? = some (move, addressOf path) ∧ UnwindsTo services w move path run e e') ∨
      leaf? = none ∧ ∃ report, e'.result? = some (.error (.executionAborted report)) := by
  cases hchange with
  | same => exact .inl ⟨fun move => nofun, h⟩
  | started hstart => exact .inl ⟨fun move => nofun, h.start? hstart⟩
  | @moved _ w' move address hmove =>
    rcases h.moveAt? hmove with ⟨hne, h'⟩ | ⟨rfl, h'⟩
    · refine .inl ⟨fun move' heq => ?_, h'⟩
      cases heq
      exact hne rfl
    · exact .inr (.inl ⟨move, rfl, h'⟩)
  | aborted habort =>
    obtain ⟨report, -, hresult⟩ := panics_of_abort? habort
    exact .inr (.inr ⟨rfl, report, hresult⟩)
  | expired hexpire =>
    obtain ⟨_, deadline, hphase, -⟩ := expire?_eq_some hexpire
    cases h.front with
    | created hcreated =>
      rw [hcreated] at hphase
      cases hphase
    | running hrunning _ =>
      rw [hrunning] at hphase
      cases hphase
  | cancelled =>
    refine .inl ⟨fun move => nofun, h.settled, rfl, h.timeout, ?_⟩
    cases h.front with
    | created hphase => exact .created hphase
    | running hphase hfront => exact .running hphase hfront

theorem exists_start? (hphase : e.phase = .created) (w : World) :
    ∃ e', e.start? w = some e' ∧ e'.phase ≠ .created := by
  rw [start?, hphase]
  exact ⟨_, rfl, nofun⟩

/-- After the first step, the front of a cancelled execution can move in time, if it waits for
nothing that never comes. -/
theorem Unwinds.exists_move (h : e.Unwinds path run) (services : Services)
    (hanswers : run.Answers) (hphase : e.phase ≠ .created) :
    ∃ time, ∀ w : World, time ≤ w.clock →
      ∃ move, (e.moveAt? services w move (addressOf path)).isSome := by
  cases h.front with
  | created hcreated => exact (hphase hcreated).elim
  | @running root path leaf hrunning hfront =>
    have hsettled := h.settled
    simp only [Settled, hrunning] at hsettled
    obtain ⟨time, hmoves⟩ := Run.exists_moveLeaf_cancelled ⟨services, e.identity⟩
      hfront.isLeaf hanswers (hfront.of_everywhere hsettled.2.1)
    refine ⟨time, fun w hw => ?_⟩
    obtain ⟨move, hmove⟩ := hmoves (e.situation w) h.cancelled hw
    obtain ⟨⟨s₁, new⟩, hnew⟩ := Option.isSome_iff_exists.mp hmove
    obtain ⟨⟨s, root'⟩, hroot'⟩ := Option.isSome_iff_exists.mp (hfront.moveAt_isSome hnew)
    refine ⟨move, ?_⟩
    simp only [Execution.moveAt?, hrunning, hroot', Option.bind_eq_bind, Option.bind_some]
    rfl

end Execution

end StateFlow
