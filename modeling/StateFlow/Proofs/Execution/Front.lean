import StateFlow.Proofs.Execution.Frames
import StateFlow.Proofs.Execution.Moves

/-!
# The front of a run

A Map state hands its items over in order, so of all items in progress it waits for the first.  What
a run waits for in the end is the leaf that the first items lead to, its front.  A move elsewhere
leaves the front where it is, however far the other items come; a move of the front either leaves it
at its place, or passes the fault it fails with up through all Map states, to the end of the run.

## Main definitions

* `Frame.Front f path leaf`: the leaf that a frame waits for, and the items on the way to it
* `Fault.passedOn path fault`: a fault as the Map states on the way pass it on
* `Frame.Settled`: a Map state at work waits for an item that is not done

## Main results

* `Frame.Front.unique`: a frame waits for one leaf
* `Frame.Front.moveAt_of_ne`, `Frame.Front.moveAt_self`: what a move does to the front
* `Frame.Front.exists_of_settled`: a settled run that has not ended has a front
-/

namespace StateFlow

/-- True of a run that is not made of other runs and has not ended. -/
def Run.isLeaf : Run → Bool
  | .working _ _ (.map ..) | .ended _ => false
  | _ => true

theorem Run.result?_of_isLeaf {run : Run} (h : run.isLeaf) : run.result? = none := by
  cases run with
  | ended result => cases h
  | entering name payload => rfl
  | working name input work => rfl
  | leaving name departure => rfl

/-! ## Passing on a fault -/

/-- The indices on a way through the items of Map states. -/
def addressOf (path : List (String × Nat)) : List Nat := path.map Prod.snd

/-- A fault as the Map states on the way pass it on, the innermost first. -/
def Fault.passedOn (path : List (String × Nat)) (fault : Fault) : Fault :=
  path.foldr (fun p fault => itemFault p.1 p.2 fault) fault

namespace Fault

theorem passedOn_cancelled (path : List (String × Nat)) : cancelled.passedOn path = cancelled := by
  induction path with
  | nil => rfl
  | cons p path ih =>
    rw [passedOn, List.foldr_cons, ← passedOn, ih]
    rfl

/-- Passing on a fault makes no cancellation of it. -/
theorem passedOn_ne_cancelled {fault : Fault} (h : fault ≠ .cancelled)
    (path : List (String × Nat)) : fault.passedOn path ≠ .cancelled := by
  cases path with
  | nil => exact h
  | cons p path =>
    rw [passedOn, List.foldr_cons, ← passedOn]
    have hne := passedOn_ne_cancelled h path
    cases hpassed : fault.passedOn path with
    | cancelled => exact absurd hpassed hne
    | _ => exact nofun

end Fault

/-! ## The front -/

namespace Frame

/-- The leaf that a frame waits for in the end: the first item of each Map state on the way. -/
inductive Front : Frame → (path : List (String × Nat)) → (leaf : Frame) → Prop
  | leaf {f : Frame} (h : f.run.isLeaf) : Front f [] f
  | item {m : Machine} {item? : Option Nat} {name : String} {input : Json} {frame : MapFrame}
      {delivered : List Json} {index : Nat} {run : Run} {rest : List (Nat × Run)}
      {waiting : List (Nat × Json)} {path : List (String × Nat)} {leaf : Frame}
      (h : Front ⟨frame.machine, some index, run⟩ path leaf) :
      Front ⟨m, item?, .working name input (.map frame delivered ((index, run) :: rest) waiting)⟩
        ((name, index) :: path) leaf

namespace Front

variable {f leaf : Frame} {path : List (String × Nat)} {scope : Scope} {move : Run.LeafMove}
  {s s' : Situation} {address : List Nat} {run' : Run}

theorem isLeaf (h : f.Front path leaf) : leaf.run.isLeaf := by
  induction h with
  | leaf h => exact h
  | item _ ih => exact ih

theorem result? (h : f.Front path leaf) : f.run.result? = none := by
  cases h with
  | leaf h => exact Run.result?_of_isLeaf h
  | item _ => rfl

/-- There is only one front. -/
theorem unique {path' : List (String × Nat)} {leaf' : Frame} (h : f.Front path leaf)
    (h' : f.Front path' leaf') : path = path' ∧ leaf = leaf' := by
  induction h generalizing path' with
  | leaf h =>
    cases h' with
    | leaf _ => exact ⟨rfl, rfl⟩
    | item _ => cases h
  | item _ ih =>
    cases h' with
    | leaf h => cases h
    | item h =>
      obtain ⟨rfl, rfl⟩ := ih h
      exact ⟨rfl, rfl⟩

/-- A move elsewhere leaves the front as it is. -/
theorem moveAt_of_ne (h : f.Front path leaf)
    (hmove : Run.moveAt scope move f.machine f.item? s address f.run = some (s', run'))
    (hne : address ≠ addressOf path) : Front { f with run := run' } path leaf := by
  induction h generalizing address s' run' with
  | @leaf f hleaf =>
    obtain ⟨m, item?, run⟩ := f
    cases address with
    | nil => exact (hne rfl).elim
    | cons index address =>
      obtain ⟨_, _, _, _, _, _, _, _, _, rfl, -⟩ := Run.moveAt_cons hmove
      cases hleaf
  | @item m item? name input frame delivered index run rest waiting path leaf h ih =>
    cases address with
    | nil => cases move <;> cases hmove
    | cons index' address =>
      obtain ⟨_, _, _, _, _, _, old, s₁, new, heq, hold, hnew, hsettle⟩ := Run.moveAt_cons hmove
      cases heq
      rw [Run.active?] at hold
      rw [Run.setActive] at hsettle
      split at hold
      · next hindex =>
        subst hindex
        cases hold
        have hfront := ih hnew fun heq => hne (congrArg (index :: ·) heq)
        rw [if_pos rfl, MapFrame.settle, MapFrame.handOver_of_result? _ _ _ hfront.result?]
          at hsettle
        cases hsettle
        exact .item hfront
      · next hindex =>
        rw [if_neg hindex, MapFrame.settle, MapFrame.handOver_of_result? _ _ _ h.result?] at hsettle
        cases hsettle
        exact .item h

/-- A move of the front is one of its leaf.  If this stays a leaf, it stays the front; if it fails,
its fault is passed on to the end. -/
theorem moveAt_self (h : f.Front path leaf)
    (hmove : Run.moveAt scope move f.machine f.item? s (addressOf path) f.run = some (s', run')) :
    ∃ s₁ new, Run.moveLeaf scope move leaf.machine leaf.item? s leaf.run = some (s₁, new) ∧
      (new.isLeaf → Front { f with run := run' } path { leaf with run := new }) ∧
      ∀ fault, new = .ended (.error fault) → run' = .ended (.error (fault.passedOn path)) := by
  induction h generalizing s' run' with
  | leaf _ => exact ⟨s', run', hmove, fun hnew => .leaf hnew, fun fault hnew => hnew⟩
  | @item m item? name input frame delivered index run rest waiting path leaf h ih =>
    obtain ⟨_, _, _, _, _, _, old, s₂, inner, heq, hold, hinner, hsettle⟩ := Run.moveAt_cons hmove
    cases heq
    rw [Run.active?, if_pos rfl] at hold
    cases hold
    rw [Run.setActive, if_pos rfl] at hsettle
    obtain ⟨s₁, new, hleaf, hstays, hfails⟩ := ih hinner
    refine ⟨s₁, new, hleaf, fun hnew => ?_, fun fault hnew => ?_⟩
    -- the first item is not done, so nothing is handed over
    · have hfront := hstays hnew
      rw [MapFrame.settle, MapFrame.handOver_of_result? _ _ _ hfront.result?] at hsettle
      cases hsettle
      exact .item hfront
    · -- the first item has failed, and with it the Map state
      rw [hfails fault hnew, MapFrame.settle, MapFrame.handOver] at hsettle
      cases hsettle
      rfl

/-- The leaf of the front can make its moves within the run. -/
theorem moveAt_isSome (h : f.Front path leaf) {new : Run}
    (hleaf : Run.moveLeaf scope move leaf.machine leaf.item? s leaf.run = some (s', new)) :
    (Run.moveAt scope move f.machine f.item? s (addressOf path) f.run).isSome := by
  induction h with
  | leaf h =>
    rw [addressOf, List.map_nil, Run.moveAt, hleaf]
    rfl
  | @item m item? name input frame delivered index run rest waiting path leaf h ih =>
    obtain ⟨⟨s₁, inner⟩, hinner⟩ := Option.isSome_iff_exists.mp (ih hleaf)
    rw [addressOf, List.map_cons, ← addressOf, Run.moveAt, Run.active?, if_pos rfl]
    simp only [Option.bind_eq_bind, Option.bind_some, hinner]
    rfl

end Front

/-! ## Settled frames -/

/-- A Map state at work waits for an item that is not done, and a task that has returned waits for
its token. -/
def Settled (f : Frame) : Prop :=
  match f.run with
  | .working _ _ (.map _ _ active _) =>
    ∃ index run rest, active = (index, run) :: rest ∧ run.result? = none
  | .working _ _ (.task ⟨_, .awaiting, token?, _⟩) => token?.isSome
  | _ => True

/-- A settled run that has not ended waits for a leaf. -/
theorem Front.exists_of_settled {f : Frame} (hf : f.Everywhere Settled)
    (hrun : f.run.result? = none) : ∃ path leaf, f.Front path leaf := by
  induction hf with
  | @intro f here _ ih =>
    obtain ⟨m, item?, run⟩ := f
    cases run with
    | working name input work =>
      cases work with
      | map frame delivered active waiting =>
        obtain ⟨index, run, rest, rfl, hhead⟩ := here
        obtain ⟨path, leaf, hfront⟩ := ih _ List.mem_cons_self hhead
        exact ⟨_, leaf, .item hfront⟩
      | task work => exact ⟨[], _, .leaf rfl⟩
      | wait work => exact ⟨[], _, .leaf rfl⟩
    | ended result => cases hrun
    | entering name payload => exact ⟨[], _, .leaf rfl⟩
    | leaving name departure => exact ⟨[], _, .leaf rfl⟩

/-- The front has what a run has everywhere. -/
theorem Front.of_everywhere {P : Frame → Prop} {f leaf : Frame} {path : List (String × Nat)}
    (h : f.Front path leaf) (hf : f.Everywhere P) : P leaf := by
  induction h with
  | leaf _ => exact hf.here
  | item _ ih => exact ih (hf.inside _ List.mem_cons_self)

/-! ## Moves keep a run settled -/

section

variable {m : Machine} {item? : Option Nat}

theorem everywhere_settled_ofOutcome (name : String) (outcome : Except Fault Departure) :
    Everywhere Settled ⟨m, item?, .ofOutcome name outcome⟩ := by
  cases outcome <;> exact .of_items_eq_nil rfl trivial

theorem everywhere_settled_startItem (frame : MapFrame) (index : Nat) (item : Json) :
    Everywhere Settled ⟨m, item?, frame.startItem index item⟩ := by
  unfold MapFrame.startItem
  split
  · exact .of_items_eq_nil rfl trivial
  · split <;> exact .of_items_eq_nil rfl trivial

/-- Settling a Map state whose items are settled gives a settled run. -/
theorem everywhere_settled_settle {frame : MapFrame} {active : List (Nat × Run)}
    (hactive : ∀ p ∈ active, Everywhere Settled ⟨frame.machine, some p.1, p.2⟩) (s : Situation)
    (name : String) (input : Json) (delivered : List Json) (waiting : List (Nat × Json)) :
    Everywhere Settled ⟨m, item?, (frame.settle s name input delivered active waiting).2⟩ :=
  everywhere_settle hactive (fun p _ => everywhere_settled_startItem frame p.1 p.2)
    (fun _ _ _ heq => MapFrame.handOver_head heq) (fun _ => everywhere_settled_ofOutcome name _)
    (fun _ _ _ => .of_items_eq_nil rfl trivial) s

theorem everywhere_settled_task_begin (task : TaskState) (scope : Scope) (s : Situation)
    (name : String) (input context : Json) :
    Everywhere Settled ⟨m, item?, (task.begin scope s name input context).2⟩ := by
  have hcall : ∀ (s : Situation) (binding : Binding) (argument context : Json)
      (token? : Option String) (deadline? : Option Nat),
      Everywhere Settled ⟨m, item?, .working name input (.task ⟨task,
        (callFunction scope s binding argument context).2, token?, deadline?⟩)⟩ := by
    intro s binding argument context token? deadline?
    refine .of_items_eq_nil rfl ?_
    unfold callFunction
    split <;> trivial
  unfold TaskState.begin
  split
  · exact .of_items_eq_nil rfl trivial
  · dsimp only
    split
    · exact .of_items_eq_nil rfl trivial
    · split
      · unfold TaskState.beginCallback
        dsimp only
        split
        · exact .of_items_eq_nil rfl trivial
        · exact hcall _ _ _ _ _ _
      · unfold TaskState.beginPlain
        split
        · exact .of_items_eq_nil rfl trivial
        · exact hcall _ _ _ _ _ _

theorem everywhere_settled_of_enters {scope : Scope} {s s' : Situation} {name : String}
    {input : Json} {new : Run} (h : Run.Enters scope m item? s name input s' new) :
    Everywhere Settled ⟨m, item?, new⟩ := by
  cases h with
  | cancelled _ => exact .of_items_eq_nil rfl trivial
  | unknown _ _ => exact .of_items_eq_nil rfl trivial
  | refused _ _ _ => exact .of_items_eq_nil rfl trivial
  | @begun state _ _ _ _ _ h =>
    obtain rfl : _ = new := congrArg Prod.snd h
    cases state with
    | pass p => exact everywhere_settled_ofOutcome name _
    | task t => exact everywhere_settled_task_begin t scope _ name input _
    | wait w =>
      dsimp only [State.begin, WaitState.begin]
      split <;> exact .of_items_eq_nil rfl trivial
    | choice c => exact everywhere_settled_ofOutcome name _
    | fail f => exact .of_items_eq_nil rfl trivial
    | succeed e => exact everywhere_settled_ofOutcome name _
    | map settings itemProcessor? iterator? =>
      dsimp only [State.begin, MapSettings.begin]
      split
      · exact .of_items_eq_nil rfl trivial
      · split
        · exact .of_items_eq_nil rfl trivial
        · refine everywhere_settled_settle (fun p hp => ?_) _ name input [] _
          obtain ⟨⟨index, item⟩, -, rfl⟩ := List.mem_map.mp hp
          exact everywhere_settled_startItem _ index item
    | parallel p => exact .of_items_eq_nil rfl trivial

/-- A task that awaits something awaits a token. -/
theorem settled_of_advances {work : TaskWork} {name : String} {s s' : Situation}
    {progress : Progress} (h : work.Advances name s s' (.going progress)) (input : Json) :
    Settled ⟨m, item?, .working name input (.task { work with progress })⟩ := by
  cases h with
  | acting _ h =>
    cases Behaviour.advances_of_advance h with
    | returned htoken => exact htoken
    | asleep => trivial
    | acting _ => trivial
  | awake _ _ => trivial

theorem everywhere_settled_moveLeaf {scope : Scope} {move : Run.LeafMove} {s s' : Situation}
    {run new : Run} (hmove : Run.moveLeaf scope move m item? s run = some (s', new)) :
    Everywhere Settled ⟨m, item?, new⟩ := by
  cases Run.moves_of_moveLeaf hmove with
  | entering h => exact everywhere_settled_of_enters h
  | leaving h => cases h <;> exact .of_items_eq_nil rfl trivial
  | going h => exact .of_items_eq_nil rfl (settled_of_advances h _)
  | done _ => exact everywhere_settled_ofOutcome _ _
  | timedOut _ => exact .of_items_eq_nil rfl trivial
  | heeded _ => exact .of_items_eq_nil rfl trivial
  | slept _ => exact everywhere_settled_ofOutcome _ _
  | woken _ => exact .of_items_eq_nil rfl trivial

end

/-- **A move keeps a run settled.** -/
theorem everywhere_settled_moveAt {scope : Scope} {move : Run.LeafMove} {s s' : Situation}
    {address : List Nat} {f : Frame} {run' : Run} (hf : f.Everywhere Settled)
    (h : Run.moveAt scope move f.machine f.item? s address f.run = some (s', run')) :
    Everywhere Settled { f with run := run' } := by
  refine hf.moveAt h (fun leaf s₁ new _ _ hmove => everywhere_settled_moveLeaf hmove) ?_
  intro m item? name input frame delivered active waiting index new s₁ _ hactive
  exact everywhere_settled_settle hactive s₁ name input delivered waiting

end Frame

end StateFlow
