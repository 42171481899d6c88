import Mathlib.Data.List.Forall2
import Mathlib.Logic.Relation
import StateFlow.Proofs.Execution.Frames
import StateFlow.Proofs.Execution.HandingOn
import StateFlow.Proofs.Fault.Payload

/-!
# A Map state and the order of its items

The items of a Map state make their moves in any order, in situations that anything else may have
changed in between.  If the work of each item comes to an end, and to the same end in whatever order
it is done, then the Map state comes to an end too, and to that of the reference which does the work
of one item after the other and stops at the first that fails: it hands on the array of all outputs
in the order of the items, or it fails with that item and its fault
(`MapSettings.reference_of_itemSteps`).  On the way no more items are in progress than may be.

What carries this is `MapFrame.Underway`: the items fall into those whose outputs were handed over,
those in progress, each somewhere on its own way, and those that wait.  Handing over moves the cuts
between the three and never looks past the first item that is not done.

## Main definitions

* `sequential work items`: the reference
* `Run.Steps`, `Run.ItemSteps`: moves of a run and of the items of a Map state, where allowed
* `MapFrame.Begins`, `MapFrame.Works`: the work of an item, and what is asked of it
* `MapFrame.Settles`: the runs that a Map state goes on with when its items are done
* `MapFrame.Underway`: how far a Map state has come

## Main results

* `sequential_eq_ok_iff`, `sequential_eq_error_iff`: all outputs in order, or the first failure
* `MapFrame.handOver_underway`: handing over agrees with the reference
* `MapSettings.reference_of_itemSteps`: every interleaving ends as the reference
-/

namespace StateFlow

/-! ## The reference -/

/-- Does the work of one item after the other and stops at the first that fails. -/
def sequential (work : Nat → Json → Except Fault Json) :
    List (Nat × Json) → Except (Nat × Fault) (List Json)
  | [] => .ok []
  | (index, item) :: items =>
    match work index item with
    | .error fault => .error (index, fault)
    | .ok output => (sequential work items).map (output :: ·)

section

variable {work : Nat → Json → Except Fault Json}

/-- The reference yields the outputs of all items in order. -/
theorem sequential_eq_ok_iff {items : List (Nat × Json)} {outputs : List Json} :
    sequential work items = .ok outputs ↔
      List.Forall₂ (fun p output => work p.1 p.2 = .ok output) items outputs := by
  induction items generalizing outputs with
  | nil =>
    rw [sequential, List.forall₂_nil_left_iff]
    exact ⟨fun h => (Except.ok.inj h).symm, fun h => h ▸ rfl⟩
  | cons p items ih =>
    obtain ⟨index, item⟩ := p
    rw [sequential, List.forall₂_cons_left_iff]
    cases hp : work index item with
    | error fault => simp
    | ok output =>
      constructor
      · intro h
        cases hs : sequential work items with
        | error e =>
          rw [hs] at h
          cases h
        | ok rest =>
          rw [hs] at h
          cases h
          exact ⟨output, rest, rfl, ih.mp hs, rfl⟩
      · rintro ⟨output', rest, hp', hrest, rfl⟩
        obtain rfl : output = output' := Except.ok.inj hp'
        rw [ih.mpr hrest]
        rfl

/-- The reference fails with the first item that fails. -/
theorem sequential_eq_error_iff {items : List (Nat × Json)} {index : Nat} {fault : Fault} :
    sequential work items = .error (index, fault) ↔
      ∃ before item after, items = before ++ (index, item) :: after ∧
        (∀ p ∈ before, ∃ output, work p.1 p.2 = .ok output) ∧ work index item = .error fault := by
  induction items with
  | nil => simp [sequential]
  | cons p items ih =>
    obtain ⟨i, item⟩ := p
    rw [sequential]
    cases hp : work i item with
    | error f =>
      constructor
      · intro h
        cases h
        exact ⟨[], item, items, rfl, by simp, hp⟩
      · rintro ⟨before, item', after, heq, hbefore, hfails⟩
        cases before with
        | nil =>
          cases heq
          rw [hp] at hfails
          cases hfails
          rfl
        | cons q before =>
          cases heq
          obtain ⟨output, houtput⟩ := hbefore _ List.mem_cons_self
          rw [hp] at houtput
          cases houtput
    | ok output =>
      have hmap : (sequential work items).map (output :: ·) = .error (index, fault) ↔
          sequential work items = .error (index, fault) := by
        cases sequential work items <;> simp [Except.map]
      rw [hmap, ih]
      constructor
      · rintro ⟨before, item', after, rfl, hbefore, hfails⟩
        exact ⟨(i, item) :: before, item', after, rfl,
          List.forall_mem_cons.mpr ⟨⟨output, hp⟩, hbefore⟩, hfails⟩
      · rintro ⟨before, item', after, heq, hbefore, hfails⟩
        cases before with
        | nil =>
          cases heq
          rw [hp] at hfails
          cases hfails
        | cons q before =>
          cases heq
          exact ⟨before, item', after, rfl, (List.forall_mem_cons.mp hbefore).2, hfails⟩

end

/-! ## Moves of items -/

namespace Run

/-- A move of a run, somewhere in it, in a situation in which the move is allowed. -/
def Steps (scope : Scope) (allowed : LeafMove → Situation → Prop) (m : Machine)
    (item? : Option Nat) (run run' : Run) : Prop :=
  ∃ move s address s', allowed move s ∧
    moveAt scope move m item? s address run = some (s', run')

/-- The same for a Map state: a move of one of its items. -/
def ItemSteps (scope : Scope) (allowed : LeafMove → Situation → Prop) (m : Machine)
    (item? : Option Nat) (run run' : Run) : Prop :=
  ∃ move s index address s', allowed move s ∧
    moveAt scope move m item? s (index :: address) run = some (s', run')

theorem not_steps_ended {scope : Scope} {allowed : LeafMove → Situation → Prop} {m : Machine}
    {item? : Option Nat} (result : Except Fault Json) (run' : Run) :
    ¬ Steps scope allowed m item? (.ended result) run' := by
  rintro ⟨move, s, address, s', -, hmove⟩
  cases result?_of_moveAt hmove

end Run

namespace MapFrame

/-- The items of a Map state with their indices. -/
def numbered (items : List Json) : List (Nat × Json) := (List.range items.length).zip items

/-- How the work of an item begins: its input is the item, or the template filled for it. -/
inductive Begins (frame : MapFrame) (index : Nat) (item : Json) : Run → Prop
  | plain (h : frame.settings.template? = none) :
      Begins frame index item (.entering frame.machine.startAt item)
  | filled {template input : Json} (htemplate : frame.settings.template? = some template)
      (h : Template.fill frame.effective (Context.withItem frame.context index item) template =
        .ok input) :
      Begins frame index item (.entering frame.machine.startAt input)
  | unfilled {template : Json} {fault : Fault}
      (htemplate : frame.settings.template? = some template)
      (h : Template.fill frame.effective (Context.withItem frame.context index item) template =
        .error fault) :
      Begins frame index item (.ended (.error fault))

theorem begins_startItem (frame : MapFrame) (index : Nat) (item : Json) :
    frame.Begins index item (frame.startItem index item) := by
  unfold startItem
  split
  · next h => exact .plain h
  · next template htemplate =>
    split
    · next input h => exact .filled htemplate h
    · next fault h => exact .unfilled htemplate h

/-- What is asked of the work of the items, the filling of the template and the nested run: it comes
to an end, and this is the same in whatever order and in whatever allowed situations it is done. -/
structure Works (frame : MapFrame) (scope : Scope) (allowed : Run.LeafMove → Situation → Prop)
    (items : List (Nat × Json)) (work : Nat → Json → Except Fault Json) : Prop where
  outcome : ∀ p ∈ items, ∀ first, frame.Begins p.1 p.2 first → ∀ result,
    Relation.ReflTransGen (Run.Steps scope allowed frame.machine (some p.1)) first
      (.ended result) → result = work p.1 p.2
  finite : ∀ p ∈ items, ∀ first, frame.Begins p.1 p.2 first →
    Acc (fun run' run => Run.Steps scope allowed frame.machine (some p.1) run run') first
  progress : ∀ p ∈ items, ∀ first, frame.Begins p.1 p.2 first → ∀ run,
    Relation.ReflTransGen (Run.Steps scope allowed frame.machine (some p.1)) first run →
    run.result? = none → ∃ run', Run.Steps scope allowed frame.machine (some p.1) run run'
  uncancelled : ∀ p ∈ items, work p.1 p.2 ≠ .error .cancelled

/-- The run that a Map state goes on with when its items have come to what the reference comes to:
all outputs are handed on in order, or the item that fails first fails the state. -/
inductive Settles (frame : MapFrame) (state : String) (input : Json) :
    Except (Nat × Fault) (List Json) → Run → Prop
  | complete {outputs : List Json} {run : Run}
      (h : Run.HandsOn frame.settings.result frame.settings.output frame.settings.transition state
        input (.array outputs) run) :
      Settles frame state input (.ok outputs) run
  | failed {index : Nat} {fault : Fault} :
      Settles frame state input (.error (index, fault))
        (.ended (.error (.itemFailed state index fault)))

variable {frame : MapFrame} {scope : Scope} {allowed : Run.LeafMove → Situation → Prop}
  {items : List (Nat × Json)} {work : Nat → Json → Except Fault Json}

/-- A run that the work of an item has come to. -/
def Reaches (frame : MapFrame) (scope : Scope) (allowed : Run.LeafMove → Situation → Prop)
    (p : Nat × Json) (q : Nat × Run) : Prop :=
  q.1 = p.1 ∧ Relation.ReflTransGen (Run.Steps scope allowed frame.machine (some p.1))
    (frame.startItem p.1 p.2) q.2

/-- How far a Map state has come: outputs were handed over in order, the items after those are in
progress, and the others wait. -/
def Underway (frame : MapFrame) (scope : Scope) (allowed : Run.LeafMove → Situation → Prop)
    (items : List (Nat × Json)) (work : Nat → Json → Except Fault Json) (delivered : List Json)
    (active : List (Nat × Run)) (waiting : List (Nat × Json)) : Prop :=
  ∃ done begun, items = done ++ (begun ++ waiting) ∧
    List.Forall₂ (fun p output => work p.1 p.2 = .ok output) done delivered ∧
    List.Forall₂ (frame.Reaches scope allowed) begun active ∧ (active = [] → waiting = [])

theorem reaches_startItem (p : Nat × Json) :
    frame.Reaches scope allowed p (p.1, frame.startItem p.1 p.2) :=
  ⟨rfl, .refl⟩

/-- An item that is done has come to what its work comes to. -/
theorem Underway.head (hwork : frame.Works scope allowed items work) {delivered : List Json}
    {index : Nat} {result : Except Fault Json} {active : List (Nat × Run)}
    {waiting : List (Nat × Json)}
    (h : frame.Underway scope allowed items work delivered ((index, .ended result) :: active)
      waiting) :
    ∃ done item begun, items = done ++ (index, item) :: (begun ++ waiting) ∧
      List.Forall₂ (fun p output => work p.1 p.2 = .ok output) done delivered ∧
      List.Forall₂ (frame.Reaches scope allowed) begun active ∧ work index item = result := by
  obtain ⟨done, begun, hitems, hdone, hbegun, -⟩ := h
  obtain ⟨⟨i, item⟩, begun', ⟨hindex, hreach⟩, hbegun', rfl⟩ :=
    List.forall₂_cons_right_iff.mp hbegun
  obtain rfl : index = i := hindex
  have hmem : (index, item) ∈ items := by simp [hitems]
  exact ⟨done, item, begun', hitems, hdone, hbegun',
    (hwork.outcome _ hmem _ (frame.begins_startItem _ _) result hreach).symm⟩

/-- **Handing over agrees with the reference**, and no more items are in progress afterwards than
before. -/
theorem handOver_underway (hwork : frame.Works scope allowed items work) {delivered : List Json}
    {active : List (Nat × Run)} {waiting : List (Nat × Json)}
    (h : frame.Underway scope allowed items work delivered active waiting) :
    match frame.handOver delivered active waiting with
    | .going delivered' active' waiting' =>
      frame.Underway scope allowed items work delivered' active' waiting' ∧
        active'.length ≤ active.length
    | .complete outputs => sequential work items = .ok outputs
    | .failed index fault _ => sequential work items = .error (index, fault) := by
  fun_induction frame.handOver delivered active waiting with
  | case1 delivered waiting =>
    obtain ⟨done, begun, hitems, hdone, hbegun, hwaiting⟩ := h
    obtain rfl : begun = [] := List.forall₂_nil_right_iff.mp hbegun
    rw [hwaiting rfl, List.append_nil, List.append_nil] at hitems
    exact sequential_eq_ok_iff.mpr (hitems ▸ hdone)
  | case2 delivered index output active ih =>
    obtain ⟨done, item, begun, hitems, hdone, hbegun, houtput⟩ := h.head hwork
    have hnext : frame.Underway scope allowed items work (delivered ++ [output]) active [] :=
      ⟨done ++ [(index, item)], begun, by simpa using hitems,
        List.rel_append hdone (.cons houtput .nil), hbegun, fun _ => rfl⟩
    have := ih hnext
    split at this
    · exact ⟨this.1, Nat.le_succ_of_le this.2⟩
    · exact this
    · exact this
  | case3 delivered index output active index' item' waiting ih =>
    -- both cuts move by one item, so as many are in progress as before
    obtain ⟨done, item, begun, hitems, hdone, hbegun, houtput⟩ := h.head hwork
    have hnext : frame.Underway scope allowed items work (delivered ++ [output])
        (active ++ [(index', frame.startItem index' item')]) waiting :=
      ⟨done ++ [(index, item)], begun ++ [(index', item')], by simpa using hitems,
        List.rel_append hdone (.cons houtput .nil),
        List.rel_append hbegun (.cons (reaches_startItem (index', item')) .nil), by simp⟩
    have := ih hnext
    split at this
    · refine ⟨this.1, ?_⟩
      simpa using this.2
    · exact this
    · exact this
  | case4 delivered waiting index fault active =>
    obtain ⟨done, item, begun, hitems, hdone, -, hfault⟩ := h.head hwork
    have hbefore : ∀ p ∈ done, ∃ output, work p.1 p.2 = .ok output :=
      ((List.forall₂_and_left _ _).mp (hdone.imp fun _ output h => ⟨⟨output, h⟩, h⟩)).1
    exact sequential_eq_error_iff.mpr ⟨done, item, begun ++ waiting, hitems, hbefore, hfault⟩
  | case5 => exact ⟨h, Nat.le_refl _⟩

/-! ## One move of an item -/

theorem exists_mem_of_forall₂ {P : Nat × Json → Nat × Run → Prop} {begun : List (Nat × Json)}
    {active : List (Nat × Run)} (h : List.Forall₂ P begun active) :
    ∀ q ∈ active, ∃ p ∈ begun, P p q := by
  induction h with
  | nil => exact nofun
  | @cons p q begun active hp _ ih =>
    refine List.forall_mem_cons.mpr ⟨⟨p, List.mem_cons_self, hp⟩, fun q' hq' => ?_⟩
    obtain ⟨p', hp', h⟩ := ih q' hq'
    exact ⟨p', List.mem_cons_of_mem _ hp', h⟩

theorem forall₂_setActive {P : Nat × Json → Nat × Run → Prop} {begun : List (Nat × Json)}
    {active : List (Nat × Run)} (h : List.Forall₂ P begun active) {index : Nat} {old new : Run}
    (hold : Run.active? index active = some old) (hnew : ∀ p, P p (index, old) → P p (index, new)) :
    List.Forall₂ P begun (Run.setActive index new active) := by
  induction h with
  | nil => exact .nil
  | @cons p q begun active hp hrest ih =>
    obtain ⟨i, run⟩ := q
    rw [Run.active?] at hold
    rw [Run.setActive]
    split at hold
    · next heq =>
      subst heq
      cases hold
      rw [if_pos rfl]
      exact .cons (hnew p hp) hrest
    · next hne =>
      rw [if_neg hne]
      exact .cons hp (ih hold)

/-- A Map state has settled as the reference does, or is still underway: at most `limit` items are
in progress, and the first of them is not done. -/
def Progresses (frame : MapFrame) (scope : Scope) (allowed : Run.LeafMove → Situation → Prop)
    (items : List (Nat × Json)) (work : Nat → Json → Except Fault Json) (limit : Nat)
    (state : String) (input : Json) (run : Run) : Prop :=
  frame.Settles state input (sequential work items) run ∨
  ∃ delivered active waiting, run = .working state input (.map frame delivered active waiting) ∧
    frame.Underway scope allowed items work delivered active waiting ∧
    active.length ≤ limit ∧ ∃ index old rest, active = (index, old) :: rest ∧ old.result? = none

variable {limit : Nat} {state : String} {input : Json}

theorem itemFault_of_ne {fault : Fault} (h : fault ≠ .cancelled) (state : String) (index : Nat) :
    itemFault state index fault = .itemFailed state index fault := by
  cases fault with
  | cancelled => exact (h rfl).elim
  | _ => rfl

/-- Settling a Map state that is underway keeps it so, or ends it as the reference does. -/
theorem settle_progresses (hwork : frame.Works scope allowed items work) {delivered : List Json}
    {active : List (Nat × Run)} {waiting : List (Nat × Json)}
    (h : frame.Underway scope allowed items work delivered active waiting)
    (hlimit : active.length ≤ limit) (s : Situation) :
    frame.Progresses scope allowed items work limit state input
      (frame.settle s state input delivered active waiting).2 := by
  have hspec := handOver_underway hwork h
  unfold settle
  split
  · next delivered' active' waiting' heq =>
    rw [heq] at hspec
    exact .inr ⟨delivered', active', waiting', rfl, hspec.1, Nat.le_trans hspec.2 hlimit,
      handOver_head heq⟩
  · next outputs heq =>
    rw [heq] at hspec
    rw [Progresses, hspec]
    exact .inl (.complete (frame.settings.handsOn_outcome state input outputs))
  · next index fault dropped heq =>
    rw [heq] at hspec
    obtain ⟨before, item, after, hitems, -, hfault⟩ := sequential_eq_error_iff.mp hspec
    have hne : fault ≠ .cancelled := by
      rintro rfl
      exact hwork.uncancelled (index, item) (by simp [hitems]) hfault
    rw [Progresses, hspec, itemFault_of_ne hne]
    exact .inl .failed

/-- A Map state settles in one way only. -/
theorem Settles.eq {outcome : Except (Nat × Fault) (List Json)} {run run' : Run}
    (h : frame.Settles state input outcome run) (h' : frame.Settles state input outcome run') :
    run = run' := by
  cases h with
  | complete h =>
    cases h' with
    | complete h' => exact h.eq h'
  | failed =>
    cases h'
    rfl

/-- A Map state that has settled is not at work. -/
theorem Settles.ne_working {outcome : Except (Nat × Fault) (List Json)} {run : Run}
    (h : frame.Settles state input outcome run) (name : String) (input' : Json) (work : Work) :
    run ≠ .working name input' work := by
  rintro rfl
  cases h with
  | complete h => cases h

/-- A move of an item replaces its run by one that its work may come to, and settles the state. -/
theorem itemSteps_cases {m : Machine} {item? : Option Nat} {delivered : List Json}
    {active : List (Nat × Run)} {waiting : List (Nat × Json)} {run' : Run}
    (h : Run.ItemSteps scope allowed m item?
      (.working state input (.map frame delivered active waiting)) run') :
    ∃ index old new s, Run.active? index active = some old ∧
      Run.Steps scope allowed frame.machine (some index) old new ∧
      run' = (frame.settle s state input delivered (Run.setActive index new active) waiting).2 := by
  obtain ⟨move, s, index, address, s', hallowed, hmove⟩ := h
  obtain ⟨_, _, _, _, _, _, old, s₁, new, heq, hold, hnew, hsettle⟩ := Run.moveAt_cons hmove
  cases heq
  exact ⟨index, old, new, s₁, hold, ⟨move, s, address, s₁, hallowed, hnew⟩,
    (congrArg Prod.snd hsettle).symm⟩

/-- A move of one item in progress keeps the state underway. -/
theorem Underway.setActive {delivered : List Json} {active : List (Nat × Run)}
    {waiting : List (Nat × Json)}
    (h : frame.Underway scope allowed items work delivered active waiting) {index : Nat}
    {old new : Run} (hold : Run.active? index active = some old)
    (hnew : Run.Steps scope allowed frame.machine (some index) old new) :
    frame.Underway scope allowed items work delivered (Run.setActive index new active) waiting := by
  obtain ⟨done, begun, hitems, hdone, hbegun, hwaiting⟩ := h
  refine ⟨done, begun, hitems, hdone, forall₂_setActive hbegun hold ?_, fun hnil => hwaiting ?_⟩
  · rintro p ⟨hindex, hreach⟩
    obtain rfl : index = p.1 := hindex
    exact ⟨rfl, hreach.tail hnew⟩
  · have hlength := Run.length_setActive index new active
    rw [hnil] at hlength
    exact List.length_eq_zero_iff.mp hlength.symm

/-- **A move of an item keeps a Map state on its way to the reference.** -/
theorem Progresses.itemSteps (hwork : frame.Works scope allowed items work) {m : Machine}
    {item? : Option Nat} {run run' : Run}
    (h : frame.Progresses scope allowed items work limit state input run)
    (hstep : run.ItemSteps scope allowed m item? run') :
    frame.Progresses scope allowed items work limit state input run' := by
  rcases h with hsettles | ⟨delivered, active, waiting, rfl, hunderway, hlimit, -⟩
  · obtain ⟨_, _, _, _, _, -, hmove⟩ := hstep
    obtain ⟨_, _, _, _, _, _, _, _, _, heq, -⟩ := Run.moveAt_cons hmove
    exact (hsettles.ne_working _ _ _ heq).elim
  · obtain ⟨index, old, new, s, hold, hnew, rfl⟩ := itemSteps_cases hstep
    refine settle_progresses hwork (hunderway.setActive hold hnew) ?_ s
    rwa [Run.length_setActive]

/-- A Map state that is underway can go on: the first of its items is not done, and can move. -/
theorem Underway.exists_itemSteps (hwork : frame.Works scope allowed items work)
    {delivered : List Json} {index : Nat} {old : Run} {rest : List (Nat × Run)}
    {waiting : List (Nat × Json)}
    (h : frame.Underway scope allowed items work delivered ((index, old) :: rest) waiting)
    (hold : old.result? = none) (m : Machine) (item? : Option Nat) :
    ∃ run', Run.ItemSteps scope allowed m item?
      (.working state input (.map frame delivered ((index, old) :: rest) waiting)) run' := by
  obtain ⟨done, begun, hitems, -, hbegun, -⟩ := h
  obtain ⟨p, begun', ⟨hindex, hreach⟩, -, rfl⟩ := List.forall₂_cons_right_iff.mp hbegun
  obtain rfl : index = p.1 := hindex
  have hmem : p ∈ items := by simp [hitems]
  obtain ⟨new, move, s, address, s', hallowed, hnew⟩ :=
    hwork.progress p hmem _ (frame.begins_startItem _ _) old hreach hold
  exact ⟨_, move, s, p.1, address, _, hallowed, by
    rw [Run.moveAt, Run.active?, if_pos rfl]
    simp only [Option.bind_eq_bind, Option.bind_some, hnew]
    rfl⟩

/-! ## Every interleaving ends -/

theorem acc_of_reflTransGen {α : Type} {r : α → α → Prop} {a b : α}
    (ha : Acc (fun y x => r x y) a) (h : Relation.ReflTransGen r a b) :
    Acc (fun y x => r x y) b := by
  induction h with
  | refl => exact ha
  | tail _ hstep ih => exact ih.inv hstep

theorem acc_itemSteps_of_ne {m : Machine} {item? : Option Nat} {run : Run}
    (h : ∀ name input work, run ≠ .working name input work) :
    Acc (fun run' run => Run.ItemSteps scope allowed m item? run run') run := by
  refine ⟨_, fun run' hstep => ?_⟩
  obtain ⟨_, _, _, _, _, -, hmove⟩ := hstep
  obtain ⟨_, _, _, _, _, _, _, _, _, heq, -⟩ := Run.moveAt_cons hmove
  exact (h _ _ _ heq).elim

/-- A move of one of the runs of a list. -/
def ActiveSteps (frame : MapFrame) (scope : Scope)
    (allowed : Run.LeafMove → Situation → Prop) (active active' : List (Nat × Run)) : Prop :=
  ∃ index old new, Run.active? index active = some old ∧
    Run.Steps scope allowed frame.machine (some index) old new ∧
    active' = Run.setActive index new active

theorem acc_activeSteps_cons {i : Nat} {run : Run} {rest : List (Nat × Run)}
    (hrun : Acc (fun run' run => Run.Steps scope allowed frame.machine (some i) run run') run)
    (hrest : Acc (fun active' active => frame.ActiveSteps scope allowed active active') rest) :
    Acc (fun active' active => frame.ActiveSteps scope allowed active active')
      ((i, run) :: rest) := by
  -- the first run or one of the others makes the next move: one induction inside the other
  induction hrun generalizing rest with
  | intro run _ ihrun =>
    induction hrest with
    | intro rest hrest ihrest =>
      refine ⟨_, fun active' hstep => ?_⟩
      obtain ⟨index, old, new, hold, hnew, rfl⟩ := hstep
      rw [Run.active?] at hold
      rw [Run.setActive]
      split at hold
      · next heq =>
        subst heq
        cases hold
        rw [if_pos rfl]
        exact ihrun new hnew ⟨rest, hrest⟩
      · next hne =>
        rw [if_neg hne]
        exact ihrest _ ⟨index, old, new, hold, hnew, rfl⟩

/-- Runs that each come to an end come to an end in every order of their moves. -/
theorem acc_activeSteps {active : List (Nat × Run)}
    (h : ∀ q ∈ active,
      Acc (fun run' run => Run.Steps scope allowed frame.machine (some q.1) run run') q.2) :
    Acc (fun active' active => frame.ActiveSteps scope allowed active active') active := by
  induction active with
  | nil =>
    refine ⟨[], fun active' hstep => ?_⟩
    obtain ⟨index, old, new, hold, -⟩ := hstep
    cases hold
  | cons q rest ih =>
    obtain ⟨hrun, hrest⟩ := List.forall_mem_cons.mp h
    exact acc_activeSteps_cons hrun (ih hrest)

/-- What is handed over leaves fewer items; where nothing is, the items are as they were. -/
theorem handOver_length {delivered delivered' : List Json} {active active' : List (Nat × Run)}
    {waiting waiting' : List (Nat × Json)}
    (h : frame.handOver delivered active waiting = .going delivered' active' waiting') :
    (delivered' = delivered ∧ active' = active ∧ waiting' = waiting) ∨
      active'.length + waiting'.length < active.length + waiting.length := by
  fun_induction frame.handOver delivered active waiting with
  | case1 => cases h
  | case2 delivered index output active ih =>
    right
    rcases ih h with ⟨-, rfl, rfl⟩ | hlt
    · simp
    · simp only [List.length_cons, List.length_nil] at hlt ⊢
      omega
  | case3 delivered index output active index' item' waiting ih =>
    right
    rcases ih h with ⟨-, rfl, rfl⟩ | hlt
    · simp only [List.length_cons, List.length_append, List.length_nil]
      omega
    · simp only [List.length_cons, List.length_append, List.length_nil] at hlt ⊢
      omega
  | case4 => cases h
  | case5 =>
    cases h
    exact .inl ⟨rfl, rfl, rfl⟩

/-- The runs of the items of a Map state that is underway come to an end. -/
theorem Underway.acc_active (hwork : frame.Works scope allowed items work) {delivered : List Json}
    {active : List (Nat × Run)} {waiting : List (Nat × Json)}
    (h : frame.Underway scope allowed items work delivered active waiting) :
    Acc (fun active' active => frame.ActiveSteps scope allowed active active') active := by
  obtain ⟨done, begun, hitems, -, hbegun, -⟩ := h
  refine acc_activeSteps fun q hq => ?_
  obtain ⟨p, hp, hindex, hreach⟩ := exists_mem_of_forall₂ hbegun q hq
  rw [hindex]
  exact acc_of_reflTransGen
    (hwork.finite p (by simp [hitems, hp]) _ (frame.begins_startItem _ _)) hreach

/-- **Every interleaving of the items of a Map state that is underway ends.** -/
theorem Underway.acc_itemSteps (hwork : frame.Works scope allowed items work) (m : Machine)
    (item? : Option Nat) {delivered : List Json} {active : List (Nat × Run)}
    {waiting : List (Nat × Json)}
    (h : frame.Underway scope allowed items work delivered active waiting) :
    Acc (fun run' run => Run.ItemSteps scope allowed m item? run run')
      (.working state input (.map frame delivered active waiting)) := by
  induction hlength : active.length + waiting.length using Nat.strongRecOn
    generalizing delivered active waiting with
  | ind count ih =>
    have hacc := h.acc_active hwork
    induction hacc with
    | intro active _ ihactive =>
      refine ⟨_, fun run' hstep => ?_⟩
      obtain ⟨index, old, new, s, hold, hnew, rfl⟩ := itemSteps_cases hstep
      have hset := h.setActive hold hnew
      have hsetLength := Run.length_setActive index new active
      have hspec := handOver_underway hwork hset
      unfold settle
      split
      · next delivered' active' waiting' heq =>
        rw [heq] at hspec
        rcases handOver_length heq with ⟨rfl, rfl, rfl⟩ | hlt
        · exact ihactive _ ⟨index, old, new, hold, hnew, rfl⟩ hset (by omega)
        · exact ih _ (by omega) hspec.1 rfl
      · next outputs _ =>
        exact acc_itemSteps_of_ne
          (Settles.complete (frame.settings.handsOn_outcome state input outputs)).ne_working
      · exact acc_itemSteps_of_ne nofun

theorem Progresses.acc_itemSteps (hwork : frame.Works scope allowed items work) (m : Machine)
    (item? : Option Nat) {run : Run}
    (h : frame.Progresses scope allowed items work limit state input run) :
    Acc (fun run' run => Run.ItemSteps scope allowed m item? run run') run := by
  rcases h with hsettles | ⟨delivered, active, waiting, rfl, hunderway, -⟩
  · exact acc_itemSteps_of_ne hsettles.ne_working
  · exact hunderway.acc_itemSteps hwork m item?

/-- A Map state begins underway: the first items are in progress, the others wait. -/
theorem underway_startItems (hlimit : 0 < limit) :
    frame.Underway scope allowed items work [] (frame.startItems (items.take limit))
      (items.drop limit) := by
  refine ⟨[], items.take limit, ?_, .nil, ?_, fun hnil => ?_⟩
  · rw [List.nil_append, List.take_append_drop]
  · rw [startItems, List.forall₂_map_right_iff, List.forall₂_same]
    exact fun p _ => reaches_startItem p
  · rw [startItems, List.map_eq_nil_iff, List.take_eq_nil_iff] at hnil
    rcases hnil with rfl | rfl
    · exact (Nat.lt_irrefl 0 hlimit).elim
    · exact List.drop_nil

end MapFrame

/-! ## The theorem -/

/-- The items of a Map state are those of the array that `ItemsPath` selects of what it sees. -/
theorem MapSettings.items_eq {settings : MapSettings} {state : String} {input effective : Json}
    {items : List Json} (hinput : settings.input.project input = .ok effective)
    (hitems : settings.itemsPath?.elim (.ok effective) (resolvePayload effective) =
      .ok (.array items)) :
    settings.items state input = .ok (effective, items) := by
  unfold MapSettings.items
  cases hpath : settings.itemsPath? with
  | none =>
    rw [hpath] at hitems
    obtain rfl : effective = .array items := Except.ok.inj hitems
    simp only [hinput, bind, Except.bind]
    rfl
  | some expression =>
    rw [hpath] at hitems
    simp only [Option.elim] at hitems
    simp only [hinput, hitems, bind, Except.bind]
    rfl

/-- **A Map state is sequential.**  If the work of each item comes to an end, and to the same end
in whatever order and situations it is done, then every interleaving of the moves of the items
comes to an end, and to that of the sequential reference; until then some item can move, and no
more items are in progress than `MaxConcurrency`, or for zero the engine, allows. -/
theorem MapSettings.reference_of_itemSteps {settings : MapSettings} {inner : Machine}
    {scope : Scope} {s s' : Situation} {state : String} {input context effective : Json}
    {items : List Json} {run₀ : Run} {allowed : Run.LeafMove → Situation → Prop}
    {work : Nat → Json → Except Fault Json}
    (hinput : settings.input.project input = .ok effective)
    (hitems : settings.itemsPath?.elim (.ok effective) (resolvePayload effective) =
      .ok (.array items))
    (hbegin : settings.begin (some inner) scope s state input context = (s', run₀))
    (hwork : MapFrame.Works ⟨settings, inner, effective, context⟩ scope allowed
      (MapFrame.numbered items) work) (m : Machine) (item? : Option Nat) :
    Acc (fun run' run => Run.ItemSteps scope allowed m item? run run') run₀ ∧
    ∀ run, Relation.ReflTransGen (Run.ItemSteps scope allowed m item?) run₀ run →
      MapFrame.Settles ⟨settings, inner, effective, context⟩ state input
        (sequential work (MapFrame.numbered items)) run ∨
      ∃ delivered active waiting,
        run = .working state input (.map ⟨settings, inner, effective, context⟩ delivered active
          waiting) ∧
        active.length ≤ max 1 (if settings.maxConcurrency = 0 then scope.services.concurrency
          else settings.maxConcurrency) ∧
        ∃ run', Run.ItemSteps scope allowed m item? run run' := by
  have hpositive : 0 < settings.limit scope.services := Nat.lt_of_lt_of_le Nat.one_pos
    (Nat.le_max_left 1 _)
  have hstart : MapFrame.Progresses ⟨settings, inner, effective, context⟩ scope allowed
      (MapFrame.numbered items) work (settings.limit scope.services) state input run₀ := by
    simp only [MapSettings.begin, MapSettings.items_eq hinput hitems] at hbegin
    obtain rfl : _ = run₀ := congrArg Prod.snd hbegin
    refine MapFrame.settle_progresses hwork (MapFrame.underway_startItems hpositive) ?_ s
    rw [MapFrame.startItems, List.length_map]
    exact List.length_take_le _ _
  refine ⟨hstart.acc_itemSteps hwork m item?, fun run hsteps => ?_⟩
  have hrun : MapFrame.Progresses ⟨settings, inner, effective, context⟩ scope allowed
      (MapFrame.numbered items) work (settings.limit scope.services) state input run := by
    induction hsteps with
    | refl => exact hstart
    | tail _ hstep ih => exact ih.itemSteps hwork hstep
  rcases hrun with
    hsettles | ⟨delivered, active, waiting, rfl, hunderway, hlimit, i, old, rest, rfl, hold⟩
  · exact .inl hsettles
  · exact .inr ⟨delivered, _, waiting, rfl, hlimit, hunderway.exists_itemSteps hwork hold m item?⟩

/-! ### Items that are found, and one that is not -/

/-- A machine that ends with one field of its input. -/
def picking : Machine := ⟨none, "Pick", [("Pick", .succeed ⟨none, .absent, .path "$.v"⟩)], none⟩

/-- A Map state that gives its items as they are to `picking`, two at a time, and hands on what it
has found. -/
def pickingSettings : MapSettings :=
  ⟨none, some "$.items", none, none, 2, .absent, .path "$.found.all", .path "$.found", ⟨none, true⟩⟩

theorem pickingSettings_input {input : Json} :
    pickingSettings.input.project input = .ok input := rfl

theorem pickingSettings_items (items : List Json) :
    pickingSettings.itemsPath?.elim (.ok (.object [("items", .array items)]))
      (resolvePayload (.object [("items", .array items)])) = .ok (.array items) := rfl

/-- Steps are taken, and nobody cancels. -/
def Run.undisturbed (move : Run.LeafMove) (s : Situation) : Prop :=
  move = .step ∧ s.cancelled = false

/-- The scope of an execution with the standard services and no functions. -/
def bareScope : Scope := ⟨.standard .none fun _ => none, default⟩

/-- The run of a Map state that begins to pick from some items. -/
def pickingRun (items : List Json) : Run :=
  (pickingSettings.begin (some picking) bareScope ⟨World.initial default, false, []⟩ "Each"
    (.object [("items", .array items)]) .null).2

theorem outcome_picking (item : Json) : SucceedState.outcome ⟨none, .absent, .path "$.v"⟩ item =
    (resolvePayload item "$.v").map fun v => ⟨none, true, v⟩ := by
  simp only [SucceedState.outcome, PathField.project, bind, Except.bind]
  cases resolvePayload item "$.v" <;> rfl

namespace Run

variable {item? : Option Nat} {item : Json} {run run' : Run}

theorem steps_entering_picking
    (h : Steps bareScope undisturbed picking item? (.entering "Pick" item) run') :
    run' = .ofOutcome "Pick" ((resolvePayload item "$.v").map fun v => ⟨none, true, v⟩) := by
  obtain ⟨move, s, address, s', ⟨rfl, hs⟩, hmove⟩ := h
  cases address with
  | cons index address => cases hmove
  | nil =>
    have henter := Option.some.inj hmove
    simp only [enter, hs] at henter
    rw [← outcome_picking]
    exact (congrArg Prod.snd henter).symm

theorem steps_leaving_picking {v : Json}
    (h : Steps bareScope undisturbed picking item? (.leaving "Pick" ⟨none, true, v⟩) run') :
    run' = .ended (.ok v) := by
  obtain ⟨move, s, address, s', ⟨rfl, hs⟩, hmove⟩ := h
  cases address with
  | cons index address => cases hmove
  | nil =>
    have hleave := Option.some.inj hmove
    simp only [leave, hs] at hleave
    exact (congrArg Prod.snd hleave).symm

/-- The runs of `picking` on an item. -/
inductive Picks (item : Json) : Run → Prop
  | entering : Picks item (.entering "Pick" item)
  | leaving {v : Json} (h : resolvePayload item "$.v" = .ok v) :
      Picks item (.leaving "Pick" ⟨none, true, v⟩)
  | ended : Picks item (.ended (resolvePayload item "$.v"))

theorem picks_of_steps
    (h : Relation.ReflTransGen (Steps bareScope undisturbed picking item?) (.entering "Pick" item)
      run) : Picks item run := by
  induction h with
  | refl => exact .entering
  | tail _ hstep ih =>
    cases ih with
    | entering =>
      rw [steps_entering_picking hstep]
      cases hv : resolvePayload item "$.v" with
      | error fault =>
        show Picks item (.ended (.error fault))
        rw [← hv]
        exact .ended
      | ok v => exact .leaving hv
    | leaving hv =>
      rw [steps_leaving_picking hstep, ← hv]
      exact .ended
    | ended => exact (not_steps_ended _ _ hstep).elim

theorem acc_picking : Acc (fun run' run => Steps bareScope undisturbed picking item? run run')
    (.entering "Pick" item) := by
  have hended : ∀ result, Acc (fun run' run => Steps bareScope undisturbed picking item? run run')
      (.ended result) :=
    fun result => ⟨_, fun run' hstep => (not_steps_ended result run' hstep).elim⟩
  refine ⟨_, fun run hstep => ?_⟩
  rw [steps_entering_picking hstep]
  cases resolvePayload item "$.v" with
  | error fault => exact hended _
  | ok v =>
    refine ⟨_, fun run' hstep' => ?_⟩
    rw [steps_leaving_picking hstep']
    exact hended _

end Run

theorem MapFrame.works_picking (effective context : Json) (items : List (Nat × Json)) :
    MapFrame.Works ⟨pickingSettings, picking, effective, context⟩ bareScope Run.undisturbed items
      fun _ item => resolvePayload item "$.v" where
  outcome p _ first hfirst result h := by
    cases hfirst with
    | plain => cases Run.picks_of_steps h; rfl
    | filled htemplate => cases htemplate
    | unfilled htemplate => cases htemplate
  finite p _ first hfirst := by
    cases hfirst with
    | plain => exact Run.acc_picking
    | filled htemplate => cases htemplate
    | unfilled htemplate => cases htemplate
  progress p _ first hfirst run h hrun := by
    have hfree : Run.undisturbed .step ⟨World.initial default, false, []⟩ := ⟨rfl, rfl⟩
    cases hfirst with
    | plain =>
      cases Run.picks_of_steps h with
      | entering => exact ⟨_, .step, _, [], _, hfree, rfl⟩
      | leaving => exact ⟨_, .step, _, [], _, hfree, rfl⟩
      | ended => cases hrun
    | filled htemplate => cases htemplate
    | unfilled htemplate => cases htemplate
  uncancelled p _ h := (resolvePayload_failsOnly p.2 "$.v" _ h).elim

/-- Every interleaving of the items of `pickingRun` comes to an end, and always to the same. -/
def PickingEnds (items : List Json) (final : Run) : Prop :=
  Acc (fun run' run => Run.ItemSteps bareScope Run.undisturbed picking none run run')
    (pickingRun items) ∧
  ∀ run, Relation.ReflTransGen (Run.ItemSteps bareScope Run.undisturbed picking none)
      (pickingRun items) run →
    run = final ∨ ∃ run', Run.ItemSteps bareScope Run.undisturbed picking none run run'

/-- Where all items have the field, the state hands on what they have in order, and otherwise it
fails with the first that lacks it. -/
theorem MapSettings.reference_of_itemSteps_picking :
    PickingEnds [.object [("v", .ofNat 1)], .object [("v", .ofNat 2)], .object [("v", .ofNat 3)]]
      (.leaving "Each" ⟨none, true, .object [("all", .array [.ofNat 1, .ofNat 2, .ofNat 3])]⟩) ∧
    PickingEnds [.object [("v", .ofNat 1)], .null, .ofNat 3]
      (.ended (.error (.itemFailed "Each" 1 (.pathNotFound "$.v")))) := by
  constructor
  · obtain ⟨hacc, hruns⟩ := reference_of_itemSteps pickingSettings_input (pickingSettings_items _)
      rfl (MapFrame.works_picking _ .null _) picking none
    refine ⟨hacc, fun run hrun => (hruns run hrun).imp (fun hsettles => ?_) ?_⟩
    · exact hsettles.eq (.complete (.departs rfl rfl))
    · rintro ⟨_, _, _, -, -, hnext⟩
      exact hnext
  · obtain ⟨hacc, hruns⟩ := reference_of_itemSteps pickingSettings_input (pickingSettings_items _)
      rfl (MapFrame.works_picking _ .null _) picking none
    refine ⟨hacc, fun run hrun => (hruns run hrun).imp (fun hsettles => ?_) ?_⟩
    · exact hsettles.eq .failed
    · rintro ⟨_, _, _, -, -, hnext⟩
      exact hnext

end StateFlow
