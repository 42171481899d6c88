import StateFlow.Execution.Step

/-!
# The frames of a run

A run is a tree: the work of a Map state holds the runs of its items.  A frame is one run of the
tree together with the machine that it walks through and the item that it works on, and an address
leads from a frame to one inside it.

`Run.moveAt` moves the leaf at an address and settles every Map state on the way.  A property of
frames that survives the one and the other at a single frame survives at all frames of the tree
(`Frame.Everywhere.moveAt`); this is the only induction over the tree that an invariant needs.

## Main definitions

* `Frame`, `Frame.items`, `Frame.at?`: frames, those of the items in progress, that at an address
* `Frame.Everywhere P`: a property of a frame and of all frames inside it

## Main results

* `Run.active?_eq_some_iff`: items that are numbered each once are found by their indices
* `MapFrame.handOver_all`: what holds of the items in progress and of those yet to be started holds
  of the items after handing over
* `MapFrame.settle_fst`: settling a Map state only releases tokens
* `Run.moveAt_leaf`: a move somewhere in a run is a move of the leaf at its address
-/

namespace StateFlow

/-! ## Items in progress -/

namespace Run

theorem mem_of_active? {index : Nat} {run : Run} {active : List (Nat × Run)}
    (h : active? index active = some run) : (index, run) ∈ active := by
  induction active with
  | nil => simp [active?] at h
  | cons p rest ih =>
    obtain ⟨i, old⟩ := p
    rw [active?] at h
    split at h
    · simp_all
    · exact List.mem_cons_of_mem _ (ih h)

@[simp] theorem length_setActive (index : Nat) (run : Run) (active : List (Nat × Run)) :
    (setActive index run active).length = active.length := by
  induction active with
  | nil => rfl
  | cons q rest ih =>
    obtain ⟨i, old⟩ := q
    rw [setActive]
    split
    · rfl
    · rw [List.length_cons, List.length_cons, ih]

theorem mem_setActive {index : Nat} {run : Run} {active : List (Nat × Run)} {p : Nat × Run}
    (h : p ∈ setActive index run active) : p ∈ active ∨ p = (index, run) := by
  induction active with
  | nil => simp [setActive] at h
  | cons q rest ih =>
    obtain ⟨i, old⟩ := q
    rw [setActive] at h
    split at h
    · rcases List.mem_cons.mp h with rfl | h
      · simp_all
      · exact .inl (List.mem_cons_of_mem _ h)
    · rcases List.mem_cons.mp h with rfl | h
      · exact .inl List.mem_cons_self
      · exact (ih h).imp_left (List.mem_cons_of_mem _)

/-- The indices of the items stay the same when one of them moves. -/
theorem map_fst_setActive (index : Nat) (new : Run) (active : List (Nat × Run)) :
    (setActive index new active).map (·.1) = active.map (·.1) := by
  induction active with
  | nil => rfl
  | cons p active ih =>
    obtain ⟨i, run⟩ := p
    rw [setActive]
    split
    · rfl
    · rw [List.map_cons, List.map_cons, ih]

/-- What is in progress after an item has moved is the item, or another one that was before. -/
theorem mem_setActive_of_nodup {index : Nat} {active : List (Nat × Run)} {p : Nat × Run}
    {new : Run} (hindices : (active.map (·.1)).Nodup) (h : p ∈ setActive index new active) :
    p = (index, new) ∨ p ∈ active ∧ p.1 ≠ index := by
  induction active with
  | nil => cases h
  | cons q active ih =>
    obtain ⟨i, old⟩ := q
    obtain ⟨hi, hindices⟩ := List.nodup_cons.mp hindices
    rw [setActive] at h
    by_cases heq : i = index
    · rw [if_pos heq] at h
      rcases List.mem_cons.mp h with rfl | hmem
      · exact .inl (by rw [heq])
      · refine .inr ⟨List.mem_cons_of_mem _ hmem, ?_⟩
        intro hp
        exact hi (List.mem_map.mpr ⟨p, hmem, hp.trans heq.symm⟩)
    · rw [if_neg heq] at h
      rcases List.mem_cons.mp h with rfl | hmem
      · exact .inr ⟨List.mem_cons_self, heq⟩
      · exact (ih hindices hmem).imp_right fun hold => ⟨List.mem_cons_of_mem _ hold.1, hold.2⟩

theorem active?_eq_some_iff {active : List (Nat × Run)} (hindices : (active.map (·.1)).Nodup)
    {index : Nat} {run : Run} : active? index active = some run ↔ (index, run) ∈ active := by
  refine ⟨mem_of_active?, fun h => ?_⟩
  induction active with
  | nil => cases h
  | cons q rest ih =>
    obtain ⟨i, old⟩ := q
    obtain ⟨hi, hindices⟩ := List.nodup_cons.mp hindices
    rw [active?]
    rcases List.mem_cons.mp h with heq | hmem
    · cases heq
      rw [if_pos rfl]
    · have hne : i ≠ index := by
        rintro rfl
        exact hi (List.mem_map.mpr ⟨(i, run), hmem, rfl⟩)
      rw [if_neg hne]
      exact ih hindices hmem

end Run

/-! ## Frames -/

/-- A run, the machine that it walks through and the item that it works on. -/
structure Frame where
  machine : Machine
  item? : Option Nat
  run : Run

namespace Frame

/-- The frames of the items in progress. -/
def items : Frame → List Frame
  | ⟨_, _, .working _ _ (.map frame _ active _)⟩ =>
    active.map fun p => ⟨frame.machine, some p.1, p.2⟩
  | _ => []

/-- The frame that an address leads to. -/
def at? : Frame → List Nat → Option Frame
  | f, [] => some f
  | ⟨_, _, .working _ _ (.map frame _ active _)⟩, index :: address =>
    (Run.active? index active).bind fun run => at? ⟨frame.machine, some index, run⟩ address
  | _, _ :: _ => none

/-- An address that is not empty leads through an item in progress. -/
theorem at?_cons {f leaf : Frame} {index : Nat} {address : List Nat}
    (h : f.at? (index :: address) = some leaf) :
    ∃ name input frame delivered active waiting old,
      f.run = .working name input (.map frame delivered active waiting) ∧
      Run.active? index active = some old ∧
      at? ⟨frame.machine, some index, old⟩ address = some leaf := by
  obtain ⟨m, item?, run⟩ := f
  cases run with
  | working name input work =>
    cases work with
    | map frame delivered active waiting =>
      obtain ⟨old, hold, hat⟩ := Option.bind_eq_some_iff.mp h
      exact ⟨name, input, frame, delivered, active, waiting, old, rfl, hold, hat⟩
    | task work => cases h
    | wait work => cases h
  | entering name payload => cases h
  | leaving name departure => cases h
  | ended result => cases h

/-- A property of a frame and of all frames inside it. -/
inductive Everywhere (P : Frame → Prop) : Frame → Prop
  | intro {f : Frame} (here : P f) (inside : ∀ g ∈ f.items, Everywhere P g) : Everywhere P f

namespace Everywhere

variable {P Q : Frame → Prop} {f : Frame}

theorem here (h : f.Everywhere P) : P f := by
  cases h
  assumption

theorem inside (h : f.Everywhere P) : ∀ g ∈ f.items, g.Everywhere P := by
  cases h
  assumption

theorem mono (h : f.Everywhere P) (hPQ : ∀ g, P g → Q g) : f.Everywhere Q := by
  induction h with
  | intro here _ ih => exact .intro (hPQ _ here) ih

theorem and (h : f.Everywhere P) (h' : f.Everywhere Q) : f.Everywhere fun g => P g ∧ Q g := by
  induction h with
  | intro here _ ih => exact .intro ⟨here, h'.here⟩ fun g hg => ih g hg (h'.inside g hg)

/-- A frame without items has a property everywhere once it has it. -/
theorem of_items_eq_nil (hf : f.items = []) (h : P f) : f.Everywhere P :=
  .intro h (by simp [hf])

/-- A property that a frame has everywhere holds at each frame that an address leads to. -/
theorem of_at? {address : List Nat} {g : Frame} (h : f.Everywhere P)
    (hat : f.at? address = some g) : g.Everywhere P := by
  induction address generalizing f with
  | nil =>
    cases hat
    exact h
  | cons index address ih =>
    obtain ⟨m, item?, run⟩ := f
    obtain ⟨name, input, frame, delivered, active, waiting, old, rfl, hold, hat⟩ := at?_cons hat
    exact ih (h.inside _ (List.mem_map_of_mem (Run.mem_of_active? hold))) hat

end Everywhere

/-- A frame inside another is that of an item. -/
theorem item?_of_at?_cons {f leaf : Frame} {index : Nat} {address : List Nat}
    (hat : f.at? (index :: address) = some leaf) : leaf.item?.isSome := by
  induction address generalizing f index with
  | nil =>
    obtain ⟨_, _, _, _, _, _, old, -, -, hat⟩ := at?_cons hat
    obtain rfl := Option.some.inj hat
    rfl
  | cons index' address ih =>
    obtain ⟨_, _, _, _, _, _, old, -, -, hat⟩ := at?_cons hat
    exact ih hat

end Frame

/-! ## What releasing tokens leaves alone -/

namespace Situation

variable (s : Situation) (tokens : List String)

@[simp] theorem release_calls : (s.release tokens).world.calls = s.world.calls := rfl

theorem release_release (tokens' : List String) :
    (s.release tokens).release tokens' = s.release (tokens ++ tokens') := by
  simp [release, Tokens.releaseAll, List.foldl_append]

end Situation

/-! ## Handing over -/

/-- A property of the items that a handover leaves in progress, drops, or fails with. -/
def Handover.All (Q : Nat × Run → Prop) : Handover → Prop
  | .going _ active _ => ∀ p ∈ active, Q p
  | .complete _ => True
  | .failed index fault dropped => Q (index, .ended (.error fault)) ∧ ∀ p ∈ dropped, Q p

theorem MapFrame.handOver_all (frame : MapFrame) {Q : Nat × Run → Prop} {delivered : List Json}
    {active : List (Nat × Run)} {waiting : List (Nat × Json)} (hactive : ∀ p ∈ active, Q p)
    (hwaiting : ∀ p ∈ waiting, Q (p.1, frame.startItem p.1 p.2)) :
    (frame.handOver delivered active waiting).All Q := by
  fun_induction frame.handOver delivered active waiting with
  | case1 => trivial
  | case2 delivered index output active ih => exact ih (by simp_all) (by simp)
  | case3 delivered index' output active index item waiting ih =>
    refine ih (fun p hp => ?_) fun p hp => hwaiting p (List.mem_cons_of_mem _ hp)
    rcases List.mem_append.mp hp with hp | hp
    · exact hactive p (List.mem_cons_of_mem _ hp)
    · rw [List.mem_singleton.mp hp]
      exact hwaiting (index, item) List.mem_cons_self
  | case4 delivered index fault active waiting =>
    exact ⟨hactive _ List.mem_cons_self, fun p hp => hactive p (List.mem_cons_of_mem _ hp)⟩
  | case5 => exact hactive

/-- An item that is not done is not passed over. -/
theorem MapFrame.handOver_of_result? (frame : MapFrame) (delivered : List Json) (index : Nat)
    {run : Run} (hrun : run.result? = none) (rest : List (Nat × Run))
    (waiting : List (Nat × Json)) :
    frame.handOver delivered ((index, run) :: rest) waiting =
      .going delivered ((index, run) :: rest) waiting := by
  cases run with
  | ended result => cases hrun
  | entering name payload => rw [handOver] <;> simp
  | working name input work => rw [handOver] <;> simp
  | leaving name departure => rw [handOver] <;> simp

/-- Handing over goes on only before an item that is not done. -/
theorem MapFrame.handOver_head {frame : MapFrame} {delivered delivered' : List Json}
    {active active' : List (Nat × Run)} {waiting waiting' : List (Nat × Json)}
    (h : frame.handOver delivered active waiting = .going delivered' active' waiting') :
    ∃ index run rest, active' = (index, run) :: rest ∧ run.result? = none := by
  fun_induction frame.handOver delivered active waiting with
  | case1 => cases h
  | case2 delivered index output active ih => exact ih h
  | case3 delivered index' output active index item waiting ih => exact ih h
  | case4 => cases h
  | case5 delivered active waiting hnil hok hok' herror =>
    obtain ⟨-, rfl, rfl⟩ := Handover.going.inj h
    -- the clauses above have taken every list that is empty or begins with an item that is done
    cases active with
    | nil => exact (hnil rfl).elim
    | cons q rest =>
      obtain ⟨index, run⟩ := q
      refine ⟨index, run, rest, rfl, ?_⟩
      cases run with
      | ended result =>
        cases result with
        | error fault => exact (herror index fault rest rfl).elim
        | ok output =>
          cases waiting with
          | nil => exact (hok index output rest rfl rfl).elim
          | cons w waiting => exact (hok' index output rest w.1 w.2 waiting rfl rfl).elim
      | entering name payload => rfl
      | working name input work => rfl
      | leaving name departure => rfl

/-- Handing over keeps the items apart: each is in progress or waits, and none twice. -/
theorem MapFrame.handOver_indices (frame : MapFrame) {delivered delivered' : List Json}
    {active active' : List (Nat × Run)} {waiting waiting' : List (Nat × Json)}
    (hindices : (active.map (·.1) ++ waiting.map (·.1)).Nodup)
    (h : frame.handOver delivered active waiting = .going delivered' active' waiting') :
    (active'.map (·.1) ++ waiting'.map (·.1)).Nodup := by
  fun_induction frame.handOver delivered active waiting with
  | case1 => cases h
  | case2 delivered index output active ih => exact ih (List.nodup_cons.mp hindices).2 h
  | case3 delivered index' output active index item waiting ih =>
    refine ih ?_ h
    simpa using (List.nodup_cons.mp hindices).2
  | case4 => cases h
  | case5 =>
    obtain ⟨-, rfl, rfl⟩ := Handover.going.inj h
    exact hindices

/-- The items that a Map state begins with are numbered, each once. -/
theorem MapFrame.nodup_numbered (frame : MapFrame) (limit : Nat) (items : List Json) :
    let numbered := (List.range items.length).zip items
    ((frame.startItems (numbered.take limit)).map (·.1) ++
      (numbered.drop limit).map (·.1)).Nodup := by
  intro numbered
  have hstarted : (frame.startItems (numbered.take limit)).map (·.1) =
      (numbered.take limit).map (·.1) := by
    simp [startItems, Function.comp_def]
  have hfst : numbered.map (·.1) = List.range items.length := List.map_fst_zip (by simp)
  rw [hstarted, ← List.map_append, List.take_append_drop, hfst]
  exact List.nodup_range

/-- Settling a Map state only releases tokens. -/
theorem MapFrame.settle_fst (frame : MapFrame) (s : Situation) (state : String) (input : Json)
    (delivered : List Json) (active : List (Nat × Run)) (waiting : List (Nat × Json)) :
    ∃ tokens, (frame.settle s state input delivered active waiting).1 = s.release tokens := by
  unfold settle
  split
  · exact ⟨[], rfl⟩
  · exact ⟨[], rfl⟩
  · exact ⟨_, rfl⟩

/-- **Settling a Map state keeps a property of all frames**, if those of the items that are handed
over and started have it, and the Map state has it while it goes on and when it has its outcome. -/
theorem Frame.everywhere_settle {P : Frame → Prop} {m : Machine} {item? : Option Nat}
    {frame : MapFrame} {name : String} {input : Json} {delivered : List Json}
    {active : List (Nat × Run)} {waiting : List (Nat × Json)}
    (hactive : ∀ p ∈ active, Everywhere P ⟨frame.machine, some p.1, p.2⟩)
    (hstart : ∀ p ∈ waiting, Everywhere P ⟨frame.machine, some p.1, frame.startItem p.1 p.2⟩)
    (hgoing : ∀ delivered' active' waiting',
      frame.handOver delivered active waiting = .going delivered' active' waiting' →
      P ⟨m, item?, .working name input (.map frame delivered' active' waiting')⟩)
    (hcomplete : ∀ outputs,
      Everywhere P ⟨m, item?, .ofOutcome name (frame.settings.outcome input outputs)⟩)
    (hfailed : ∀ index fault,
      Everywhere P ⟨frame.machine, some index, .ended (.error fault)⟩ →
      Everywhere P ⟨m, item?, .ended (.error (itemFault name index fault))⟩) (s : Situation) :
    Everywhere P ⟨m, item?, (frame.settle s name input delivered active waiting).2⟩ := by
  have hall := @frame.handOver_all (fun p => Everywhere P ⟨frame.machine, some p.1, p.2⟩) delivered
    _ _ hactive hstart
  unfold MapFrame.settle
  split
  · next delivered' active' waiting' heq =>
    rw [heq] at hall
    refine .intro (hgoing _ _ _ heq) fun g hg => ?_
    obtain ⟨p, hp, rfl⟩ := List.mem_map.mp hg
    exact hall p hp
  · exact hcomplete _
  · next index fault dropped heq =>
    rw [heq] at hall
    exact hfailed index fault hall.1

/-! ## Moves in a tree -/

namespace Run

variable {scope : Scope} {move : LeafMove} {m : Machine} {item? : Option Nat} {s s' : Situation}
  {run run' : Run}

/-- A run that has ended does not move. -/
theorem result?_of_moveAt {address : List Nat}
    (h : moveAt scope move m item? s address run = some (s', run')) : run.result? = none := by
  cases run with
  | ended result =>
    cases address with
    | nil => cases move <;> cases h
    | cons index address => cases h
  | entering name payload => rfl
  | working name input work => rfl
  | leaving name departure => rfl

/-- A move below a Map state is a move of one of its items, after which the state is settled. -/
theorem moveAt_cons {index : Nat} {address : List Nat}
    (h : moveAt scope move m item? s (index :: address) run = some (s', run')) :
    ∃ name input frame delivered active waiting old s₁ new,
      run = .working name input (.map frame delivered active waiting) ∧
      active? index active = some old ∧
      moveAt scope move frame.machine (some index) s address old = some (s₁, new) ∧
      frame.settle s₁ name input delivered (setActive index new active) waiting = (s', run') := by
  unfold moveAt at h
  split at h
  · simp at *
  · next i a name input frame delivered active waiting heq =>
    obtain ⟨rfl, rfl⟩ := List.cons.inj heq
    simp only [Option.bind_eq_bind, Option.bind_eq_some_iff, Prod.exists, Option.pure_def,
      Option.some.injEq] at h
    obtain ⟨old, hold, s₁, new, hnew, hs⟩ := h
    exact ⟨name, input, frame, delivered, active, waiting, old, s₁, new, rfl, hold, hnew, hs⟩
  · simp at h

/-- A move somewhere in a run is a move of the leaf at its address, in the same situation. -/
theorem moveAt_leaf {address : List Nat}
    (h : moveAt scope move m item? s address run = some (s', run')) :
    ∃ leaf s₁ new, Frame.at? ⟨m, item?, run⟩ address = some leaf ∧
      moveLeaf scope move leaf.machine leaf.item? s leaf.run = some (s₁, new) ∧
      ∃ tokens, s' = s₁.release tokens := by
  induction address generalizing m item? run s' run' with
  | nil => exact ⟨_, s', run', rfl, h, [], rfl⟩
  | cons index address ih =>
    obtain ⟨name, input, frame, delivered, active, waiting, old, s₁, new, rfl, hold, hnew, hs⟩ :=
      moveAt_cons h
    -- the tokens of the items dropped on the way up add to those released below
    obtain ⟨leaf, s₂, new', hat, hleaf, tokens, rfl⟩ := ih hnew
    obtain ⟨tokens', hfst⟩ := frame.settle_fst (s₂.release tokens) name input delivered
      (setActive index new active) waiting
    refine ⟨leaf, s₂, new', by simp [Frame.at?, hold, hat], hleaf, tokens ++ tokens', ?_⟩
    rw [hs, Situation.release_release] at hfst
    exact hfst

end Run

namespace Frame

variable {P : Frame → Prop}

/-- **A property that a move of a leaf and the settling of a Map state keep is kept everywhere.** -/
theorem Everywhere.moveAt {scope : Scope} {move : Run.LeafMove} {s s' : Situation}
    {address : List Nat} {f : Frame} {run' : Run} (hf : f.Everywhere P)
    (h : Run.moveAt scope move f.machine f.item? s address f.run = some (s', run'))
    (hleaf : ∀ leaf s₁ new, f.at? address = some leaf → P leaf →
      Run.moveLeaf scope move leaf.machine leaf.item? s leaf.run = some (s₁, new) →
      Everywhere P { leaf with run := new })
    (hsettle : ∀ m item? name input frame delivered active waiting index new s₁,
      P ⟨m, item?, .working name input (.map frame delivered active waiting)⟩ →
      (∀ p ∈ Run.setActive index new active, Everywhere P ⟨frame.machine, some p.1, p.2⟩) →
      Everywhere P
        ⟨m, item?, (frame.settle s₁ name input delivered (Run.setActive index new active)
          waiting).2⟩) :
    Everywhere P { f with run := run' } := by
  induction address generalizing f s' run' with
  | nil => exact hleaf f s' run' rfl hf.here h
  | cons index address ih =>
    obtain ⟨m, item?, run⟩ := f
    obtain ⟨name, input, frame, delivered, active, waiting, old, s₁, new, rfl, hold, hnew, hs⟩ :=
      Run.moveAt_cons h
    have hold' : Everywhere P ⟨frame.machine, some index, old⟩ :=
      hf.inside _ (List.mem_map_of_mem (Run.mem_of_active? hold))
    have hnew' : Everywhere P ⟨frame.machine, some index, new⟩ :=
      ih hold' hnew fun leaf s₂ new' hat => hleaf leaf s₂ new' (by simp [at?, hold, hat])
    have hsettled := hsettle m item? name input frame delivered active waiting index new s₁ hf.here
      fun p hp => (Run.mem_setActive hp).elim
        (fun hp => hf.inside _ (List.mem_map_of_mem hp)) (fun hp => hp ▸ hnew')
    rwa [hs] at hsettled

end Frame

end StateFlow
