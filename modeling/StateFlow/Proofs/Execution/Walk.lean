import StateFlow.Proofs.Execution.Frames
import StateFlow.Proofs.Execution.Raising

/-!
# Walking through the levels of a machine

A run that starts at the start of a machine stays in its levels: every frame of it walks through a
level, is about to enter a state that the level mentions, or is at work in or about to leave a state
that the level has.  What a frame fails with has been raised in its level, or by an item of one of
its Map states, and then it stands under the name of that state and the index of the item.

Which faults may be raised is left to a predicate `R` of levels and faults, so that one induction
serves every statement about what an execution can fail with; `Blame R` is all that is asked of it.

## Main definitions

* `Fault.Within R m fault`: the fault was raised in `m`, or by an item below, where `R` allows it
* `Frame.Sound root R`: a frame that keeps to the levels of `root`

## Main results

* `Frame.everywhere_sound_moveAt`: a move keeps all frames sound when the leaf that moves raises
  what `R` allows
-/

namespace StateFlow

/-- The fault below the items that passed it on. -/
def Fault.innermost : Fault → Fault
  | .itemFailed _ _ source => source.innermost
  | fault => fault

/-- A fault that was raised in a level, or by an item of a Map state of the level. -/
inductive Fault.Within (R : Machine → Fault → Prop) : Machine → Fault → Prop
  | raised {m : Machine} {fault : Fault} (h : R m fault) : Within R m fault
  | item {m inner : Machine} {name : String} {settings : MapSettings} {index : Nat} {fault : Fault}
      {itemProcessor? iterator? : Option Machine}
      (hs : m.state? name = some (.map settings itemProcessor? iterator?))
      (hp : processor? itemProcessor? iterator? = some inner)
      (h : Within R inner fault) : Within R m (.itemFailed name index fault)

/-- What may be raised at any level, whatever its definition. -/
structure Blame (R : Machine → Fault → Prop) : Prop where
  payload : ∀ (m : Machine) (fault : Fault), fault.OfPayload → R m fault
  cancelled : ∀ m : Machine, R m .cancelled
  timedOut : ∀ (m : Machine) (seconds : Nat), R m (.executionTimedOut seconds)
  aborted : ∀ (m : Machine) (report : String), R m (.executionAborted report)

namespace Fault.Within

variable {R R' : Machine → Fault → Prop} {m : Machine} {fault : Fault}

theorem mono (h : Within R m fault) (hR : ∀ m fault, R m fault → R' m fault) :
    Within R' m fault := by
  induction h with
  | raised h => exact .raised (hR _ _ h)
  | item hs hp _ ih => exact .item hs hp ih

/-- What the innermost fault of whatever is raised has, the innermost fault of all has. -/
theorem of_innermost {C : Fault → Prop} (h : Within (fun _ fault => C fault.innermost) m fault) :
    C fault.innermost := by
  induction h with
  | raised h => exact h
  | item _ _ _ ih => exact ih

/-- A Map state passes on the fault of an item under its name, or its cancellation. -/
theorem itemFault (hR : Blame R) {inner : Machine} {name : String} {settings : MapSettings}
    {itemProcessor? iterator? : Option Machine}
    (hs : m.state? name = some (.map settings itemProcessor? iterator?))
    (hp : processor? itemProcessor? iterator? = some inner) (index : Nat)
    (h : Within R inner fault) : Within R m (StateFlow.itemFault name index fault) := by
  unfold StateFlow.itemFault
  split
  · exact .raised (hR.cancelled m)
  · exact .item hs hp h

end Fault.Within

/-! ## Sound frames -/

/-- A frame that keeps to the levels of a machine. -/
structure Frame.Sound (root : Machine) (R : Machine → Fault → Prop) (f : Frame) : Prop where
  level : root.HasLevel f.machine
  run : match f.run with
    | .working name _ (.map frame _ _ _) => ∃ itemProcessor? iterator?,
      f.machine.state? name = some (.map frame.settings itemProcessor? iterator?) ∧
        processor? itemProcessor? iterator? = some frame.machine
    | run => run.Fits f.machine (Fault.Within R f.machine)

theorem Run.Fits.mono {m : Machine} {P Q : Fault → Prop} {run : Run} (h : run.Fits m P)
    (hPQ : ∀ fault, P fault → Q fault) : run.Fits m Q := by
  unfold Run.Fits at h ⊢
  split at h
  all_goals first | exact h | exact hPQ _ h

namespace Frame

variable {root m : Machine} {R : Machine → Fault → Prop} {item? : Option Nat}

/-- A leaf that fits a level is sound, and there is nothing inside it. -/
theorem everywhere_sound_of_fits {run : Run} (hm : root.HasLevel m)
    (h : run.Fits m (Fault.Within R m)) : Everywhere (Sound root R) ⟨m, item?, run⟩ := by
  cases run with
  | working name input work =>
    cases work with
    | map frame delivered active waiting => exact h.elim
    | task work => exact .of_items_eq_nil rfl ⟨hm, h⟩
    | wait work => exact .of_items_eq_nil rfl ⟨hm, h⟩
  | entering name payload => exact .of_items_eq_nil rfl ⟨hm, h⟩
  | leaving name departure => exact .of_items_eq_nil rfl ⟨hm, h⟩
  | ended result => exact .of_items_eq_nil rfl ⟨hm, h⟩

theorem everywhere_sound_start (hm : root.HasLevel m) (input : Json) :
    Everywhere (Sound root R) ⟨m, item?, .start m input⟩ :=
  everywhere_sound_of_fits hm (.inl rfl)

theorem everywhere_sound_startItem (hR : Blame R) {frame : MapFrame}
    (hm : root.HasLevel frame.machine) (index : Nat) (item : Json) :
    Everywhere (Sound root R) ⟨frame.machine, item?, frame.startItem index item⟩ := by
  unfold MapFrame.startItem
  split
  · exact everywhere_sound_start hm item
  · next template _ =>
    split
    · exact everywhere_sound_start hm _
    · next fault h =>
      exact everywhere_sound_of_fits hm (.raised (hR.payload _ fault
        (Template.fill_failsOnly _ _ template fault h)))

/-- Settling a Map state whose items are sound gives a sound frame. -/
theorem everywhere_sound_settle (hR : Blame R) (hm : root.HasLevel m) {frame : MapFrame}
    {name : String} {itemProcessor? iterator? : Option Machine}
    (hs : m.state? name = some (.map frame.settings itemProcessor? iterator?))
    (hp : processor? itemProcessor? iterator? = some frame.machine)
    {active : List (Nat × Run)}
    (hactive : ∀ p ∈ active, Everywhere (Sound root R) ⟨frame.machine, some p.1, p.2⟩)
    (s : Situation) (input : Json) (delivered : List Json) (waiting : List (Nat × Json)) :
    Everywhere (Sound root R)
      ⟨m, item?, (frame.settle s name input delivered active waiting).2⟩ := by
  -- the items that are started while handing over walk through the same level
  have hinner : root.HasLevel frame.machine := hm.inside (Entries.mem_of_get? hs) hp
  refine everywhere_settle hactive (fun p _ => everywhere_sound_startItem hR hinner p.1 p.2)
    (fun _ _ _ _ => ⟨hm, _, _, hs, hp⟩) (fun outputs => ?_) (fun index fault hitem => ?_) s
  · refine everywhere_sound_of_fits hm (Run.fits_ofOutcome hs ?_ ?_)
    · exact (frame.settings.outcome_failsOnly input outputs).mono fun fault h =>
        .raised (hR.payload m fault h)
    · exact frame.settings.outcome_leads _ _ input outputs
  · exact everywhere_sound_of_fits hm (.itemFault hR hs hp index hitem.here.run)

/-- A sound frame that moves as a leaf fits its level: no Map state at work is such a leaf. -/
theorem Sound.fits {scope : Scope} {move : Run.LeafMove} {s s' : Situation} {leaf : Frame}
    {new : Run} (hleaf : leaf.Sound root R)
    (h : Run.moveLeaf scope move leaf.machine leaf.item? s leaf.run = some (s', new)) :
    leaf.run.Fits leaf.machine (Fault.Within R leaf.machine) := by
  obtain ⟨m, item?, run⟩ := leaf
  cases run with
  | working name input work =>
    cases work with
    | map frame delivered active waiting => cases move <;> cases h
    | task work => exact hleaf.run
    | wait work => exact hleaf.run
  | entering name payload => exact hleaf.run
  | leaving name departure => exact hleaf.run
  | ended result => exact hleaf.run

/-- A move of a sound leaf that raises what is allowed gives a sound frame. -/
theorem everywhere_sound_moveLeaf (hR : Blame R) {scope : Scope} {move : Run.LeafMove}
    {s s' : Situation} {leaf : Frame} {new : Run} (hleaf : leaf.Sound root R)
    (h : Run.moveLeaf scope move leaf.machine leaf.item? s leaf.run = some (s', new))
    (hraise : ∀ fault, Raises scope leaf.machine s leaf.run fault → R leaf.machine fault) :
    Everywhere (Sound root R) { leaf with run := new } := by
  have hfits := hleaf.fits h
  obtain ⟨m, item?, run⟩ := leaf
  rcases Run.moveLeaf_cases hfits h with hnew | ⟨name, input, rfl, hbegins⟩
  · exact everywhere_sound_of_fits hleaf.level
      (hnew.mono fun fault hfault => .raised (hraise fault hfault))
  · obtain ⟨frame, items, itemProcessor?, iterator?, hs, hp, -, hsettle⟩ := hbegins
    have hinner : root.HasLevel frame.machine := hleaf.level.inside (Entries.mem_of_get? hs) hp
    obtain rfl : _ = new := congrArg Prod.snd hsettle
    refine everywhere_sound_settle hR hleaf.level hs hp (fun p hmem => ?_) _ input [] _
    obtain ⟨⟨index, item⟩, -, rfl⟩ := List.mem_map.mp hmem
    exact everywhere_sound_startItem hR hinner index item

/-- **A move keeps all frames sound** when the leaf at its address raises what is allowed. -/
theorem everywhere_sound_moveAt (hR : Blame R) {scope : Scope} {move : Run.LeafMove}
    {s s' : Situation} {address : List Nat} {f : Frame} {run' : Run}
    (hf : f.Everywhere (Sound root R))
    (h : Run.moveAt scope move f.machine f.item? s address f.run = some (s', run'))
    (hraise : ∀ leaf, f.at? address = some leaf → leaf.Sound root R →
      ∀ fault, Raises scope leaf.machine s leaf.run fault → R leaf.machine fault) :
    Everywhere (Sound root R) { f with run := run' } := by
  refine hf.moveAt h (fun leaf s₁ new hat hleaf hmove => ?_) ?_
  · exact everywhere_sound_moveLeaf hR hleaf hmove (hraise leaf hat hleaf)
  · intro m item? name input frame delivered active waiting index new s₁ hmap hactive
    obtain ⟨itemProcessor?, iterator?, hs, hp⟩ := hmap.run
    exact everywhere_sound_settle hR hmap.level hs hp hactive s₁ input delivered waiting

end Frame

/-! ## Ending by oneself -/

/-- True of the fault of an execution that was aborted. -/
def Fault.isAborted : Fault → Bool
  | executionAborted _ => true
  | _ => false

theorem Fault.OfPayload.isAborted_eq {fault : Fault} (h : fault.OfPayload) :
    fault.isAborted = false := by
  cases fault with
  | executionAborted report => exact h.elim
  | _ => rfl

theorem isAborted_itemFault (state : String) (index : Nat) (fault : Fault) :
    (itemFault state index fault).isAborted = false := by
  cases fault <;> rfl

theorem Raises.isAborted_eq {scope : Scope} {m : Machine} {s : Situation} {run : Run}
    {fault : Fault} (h : Raises scope m s run fault) : fault.isAborted = false := by
  cases h with
  | payload h => exact h.isAborted_eq
  | choice _ h =>
    rcases h with h | ⟨_, _, _, _, rfl⟩ | ⟨rfl, -⟩
    · exact h.isAborted_eq
    · rfl
    · rfl
  | _ => rfl

namespace Run

/-- A run that has not been aborted.  What aborts an execution comes from outside its runs. -/
def Unaborted : Run → Prop
  | ended (.error fault) => fault.isAborted = false
  | _ => True

variable {scope : Scope} {move : LeafMove} {m : Machine} {item? : Option Nat} {s s' : Situation}
  {run new : Run}

theorem Fits.unaborted {P : Fault → Prop} (h : new.Fits m P)
    (hP : ∀ fault, P fault → fault.isAborted = false) : new.Unaborted := by
  cases new with
  | ended result =>
    cases result with
    | ok output => trivial
    | error fault => exact hP fault h
  | _ => trivial

theorem unaborted_ofOutcome (name : String) {x : Except Fault Departure}
    (h : FailsOnly (fun fault => fault.isAborted = false) x) : (ofOutcome name x).Unaborted := by
  cases x with
  | ok departure => trivial
  | error fault => exact h fault rfl

theorem unaborted_settle (frame : MapFrame) (s : Situation) (name : String) (input : Json)
    (delivered : List Json) (active : List (Nat × Run)) (waiting : List (Nat × Json)) :
    (frame.settle s name input delivered active waiting).2.Unaborted := by
  unfold MapFrame.settle
  split
  · trivial
  · next outputs _ =>
    exact unaborted_ofOutcome name
      ((frame.settings.outcome_failsOnly input outputs).mono fun _ h => h.isAborted_eq)
  · exact isAborted_itemFault name _ _

/-- A leaf that moves does not end as aborted. -/
theorem Moves.unaborted (h : Moves scope move m item? s run s' new) : new.Unaborted := by
  cases h with
  | entering h =>
    rcases h.cases with hfits | ⟨frame, items, _, _, -, -, -, hsettle⟩
    · exact hfits.unaborted fun fault hraises => hraises.isAborted_eq
    · obtain rfl : _ = new := congrArg Prod.snd hsettle
      exact unaborted_settle _ _ _ _ _ _ _
  | leaving h =>
    cases h with
    | cancelled _ => rfl
    | next _ _ => trivial
    | last _ _ => trivial
  | going _ => trivial
  | @done name input work _ result h =>
    refine unaborted_ofOutcome name (.bind (h.failsOnly.mono ?_) fun output =>
      (work.task.outcome_failsOnly input output).mono fun _ h => h.isAborted_eq)
    rintro fault (⟨message, rfl⟩ | ⟨rfl, -⟩) <;> rfl
  | timedOut _ _ => rfl
  | heeded _ => rfl
  | @slept name _ work _ =>
    exact unaborted_ofOutcome name
      ((work.wait.outcome_failsOnly work.effective).mono fun _ h => h.isAborted_eq)
  | woken _ => rfl

/-- **No move of a run ends it as aborted**, wherever in the run it is made. -/
theorem unaborted_moveAt {address : List Nat}
    (h : moveAt scope move m item? s address run = some (s', new)) : new.Unaborted := by
  cases address with
  | nil => exact (moves_of_moveLeaf h).unaborted
  | cons index address =>
    obtain ⟨name, input, frame, delivered, active, waiting, old, s₁, new', rfl, -, -, hsettle⟩ :=
      moveAt_cons h
    obtain rfl : _ = new := congrArg Prod.snd hsettle
    exact unaborted_settle _ _ _ _ _ _ _

end Run

end StateFlow
