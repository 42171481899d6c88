import StateFlow.Proofs.Execution.Front
import StateFlow.Proofs.Execution.Walk

/-!
# Where the fault of a run comes from

The run of a frame ends with a fault of its own, or an item of one of its Map states does and the
Map state passes the fault on under its name and the index of the item.  So a fault with which a run
ends is wrapped once for every Map state between the run and the frame that raised it, and only a
cancellation is passed on as it is.

Items end in any order and the fault of one may wait long before its Map state comes to it, if it
ever does.  What has been raised where is therefore a parameter `R` of paths and faults, which grows
with each move; a frame is accounted for if whatever has ended inside it has ended with what `R`
knows of (`Frame.Accounted`).

## Main definitions

* `Fault.isOwn`, `Fault.wrapped path`: faults that no Map state has wrapped, and those wrapped along
  a path
* `MapFrame.Holds`: the item that a Map state of a level has at an index
* `Frame.LeadsTo f path g`: the frame that a path of Map states and indices leads to
* `Run.RaisesAt`: a move makes the frame at the end of a path end with a fault of its own
* `Fault.ComesFrom R`, `Frame.Accounted R`: a fault and a frame that `R` accounts for

## Main results

* `Fault.wrapped_inj`: a fault tells along which path it was wrapped, and what was raised there
* `Run.RaisesAt.cause`: what a payload has not caused was raised by the leaf that moved
* `Frame.Accounted.moveAt`: a move leaves a frame accounted for by what the move raises
-/

namespace StateFlow

/-! ## Wrapped faults -/

namespace Fault

/-- True of the faults that a run ends with by itself: no cancellation, and not that of an item. -/
def isOwn : Fault → Bool
  | cancelled | itemFailed .. => false
  | _ => true

/-- A fault wrapped once for each item on a way, the outermost first. -/
def wrapped (path : List (String × Nat)) (fault : Fault) : Fault :=
  path.foldr (fun p fault => itemFailed p.1 p.2 fault) fault

@[simp] theorem wrapped_nil (fault : Fault) : fault.wrapped [] = fault := rfl

@[simp] theorem wrapped_cons (p : String × Nat) (path : List (String × Nat)) (fault : Fault) :
    fault.wrapped (p :: path) = itemFailed p.1 p.2 (fault.wrapped path) := rfl

/-- The whole is reported under the name of the innermost. -/
@[simp] theorem errorName_wrapped (path : List (String × Nat)) (fault : Fault) :
    (fault.wrapped path).errorName = fault.errorName := by
  induction path with
  | nil => rfl
  | cons p path ih => rw [wrapped_cons, errorName_itemFailed, ih]

/-- A fault tells along which path it was wrapped, and what was raised at the end of it. -/
theorem wrapped_inj {path path' : List (String × Nat)} {leaf leaf' : Fault} (hleaf : leaf.isOwn)
    (hleaf' : leaf'.isOwn) (h : leaf.wrapped path = leaf'.wrapped path') :
    path = path' ∧ leaf = leaf' := by
  induction path generalizing path' with
  | nil =>
    cases path' with
    | nil => exact ⟨rfl, h⟩
    | cons p' path' =>
      rw [wrapped_nil, wrapped_cons] at h
      rw [h] at hleaf
      cases hleaf
  | cons p path ih =>
    cases path' with
    | nil =>
      rw [wrapped_nil, wrapped_cons] at h
      rw [← h] at hleaf'
      cases hleaf'
    | cons p' path' =>
      obtain ⟨hname, hindex, hsource⟩ := itemFailed.inj h
      obtain ⟨rfl, rfl⟩ := ih hsource
      exact ⟨congrArg (· :: path) (Prod.ext hname hindex), rfl⟩

theorem itemFault_wrapped {leaf : Fault} (h : leaf.isOwn) (name : String) (index : Nat)
    (path : List (String × Nat)) :
    itemFault name index (leaf.wrapped path) = leaf.wrapped ((name, index) :: path) := by
  cases path with
  | cons p path => rfl
  | nil =>
    cases leaf with
    | cancelled => cases h
    | _ => rfl

theorem OfPayload.isOwn {fault : Fault} (h : fault.OfPayload) : fault.isOwn := by
  cases fault with
  | cancelled => exact h.elim
  | itemFailed name index source => exact h.elim
  | _ => rfl

theorem isOwn_itemFault (name : String) (index : Nat) (fault : Fault) :
    (itemFault name index fault).isOwn = false := by
  cases fault <;> rfl

/-- A fault that `R` accounts for: the cancellation, or what `R` says was raised at the end of a
path, wrapped along that path and reported under the name of what was raised. -/
def ComesFrom (R : List (String × Nat) → Fault → Prop) (fault : Fault) : Prop :=
  fault = cancelled ∨ ∃ path leaf, leaf.isOwn ∧ fault = leaf.wrapped path ∧
    fault.errorName = leaf.errorName ∧ R path leaf

namespace ComesFrom

variable {R R' : List (String × Nat) → Fault → Prop} {fault : Fault}

theorem mono (h : fault.ComesFrom R) (hR : ∀ path leaf, R path leaf → R' path leaf) :
    fault.ComesFrom R' :=
  h.imp_right fun ⟨path, leaf, hown, heq, hname, hleaf⟩ =>
    ⟨path, leaf, hown, heq, hname, hR path leaf hleaf⟩

theorem raised (hown : fault.isOwn) (h : R [] fault) : fault.ComesFrom R :=
  .inr ⟨[], fault, hown, rfl, rfl, h⟩

/-- A Map state passes on what an item has ended with. -/
theorem itemFault {name : String} {index : Nat}
    (h : fault.ComesFrom fun path => R ((name, index) :: path)) :
    (StateFlow.itemFault name index fault).ComesFrom R := by
  rcases h with rfl | ⟨path, leaf, hown, rfl, -, hleaf⟩
  · exact .inl rfl
  · rw [itemFault_wrapped hown]
    exact .inr ⟨_, leaf, hown, rfl, errorName_wrapped _ leaf, hleaf⟩

end ComesFrom

end Fault

theorem Raises.isOwn {scope : Scope} {m : Machine} {s : Situation} {run : Run} {fault : Fault}
    (h : Raises scope m s run fault) : fault = .cancelled ∨ fault.isOwn := by
  cases fault with
  | cancelled => exact .inl rfl
  | itemFailed name index source => exact (h.ne_itemFailed name index source rfl).elim
  | _ => exact .inr rfl

/-! ## Items -/

/-- The item that a Map state of a level has at an index of the array that it finds in its input. -/
structure MapFrame.Holds (frame : MapFrame) (m : Machine) (name : String) (input : Json)
    (index : Nat) (item : Json) : Prop where
  state : ∃ itemProcessor? iterator?,
    m.state? name = some (.map frame.settings itemProcessor? iterator?) ∧
      processor? itemProcessor? iterator? = some frame.machine
  items : ∃ items, frame.settings.items name input = .ok (frame.effective, items) ∧
    items[index]? = some item

/-- A run is about to enter a Map state, or is at work in it. -/
inductive MapFrame.StandsIn (frame : MapFrame) (scope : Scope) (s : Situation) :
    Run → String → Json → Prop
  | entering {name : String} {input : Json}
      (h : frame.context = Context.ofState scope.identity name s.world.now) :
      StandsIn frame scope s (.entering name input) name input
  | working {name : String} {input : Json} {delivered : List Json} {active : List (Nat × Run)}
      {waiting : List (Nat × Json)} :
      StandsIn frame scope s (.working name input (.map frame delivered active waiting)) name input

/-- The items that wait after handing over waited before. -/
theorem MapFrame.handOver_waiting {frame : MapFrame} {delivered delivered' : List Json}
    {active active' : List (Nat × Run)} {waiting waiting' : List (Nat × Json)}
    (h : frame.handOver delivered active waiting = .going delivered' active' waiting') :
    waiting' ⊆ waiting := by
  fun_induction frame.handOver delivered active waiting with
  | case1 => cases h
  | case2 delivered index output active ih => exact ih h
  | case3 delivered index' output active index item waiting ih =>
    exact List.subset_cons_of_subset _ (ih h)
  | case4 => cases h
  | case5 =>
    obtain ⟨-, -, rfl⟩ := Handover.going.inj h
    exact List.Subset.refl _

namespace Frame

/-- A path of Map states and indices of their items leads from a frame to one inside it. -/
inductive LeadsTo : Frame → List (String × Nat) → Frame → Prop
  | here {f : Frame} : LeadsTo f [] f
  | item {m : Machine} {item? : Option Nat} {name : String} {input : Json} {frame : MapFrame}
      {delivered : List Json} {active : List (Nat × Run)} {waiting : List (Nat × Json)}
      {index : Nat} {run : Run} {path : List (String × Nat)} {g : Frame}
      (hactive : Run.active? index active = some run)
      (h : LeadsTo ⟨frame.machine, some index, run⟩ path g) :
      LeadsTo ⟨m, item?, .working name input (.map frame delivered active waiting)⟩
        ((name, index) :: path) g

theorem LeadsTo.at? {f g : Frame} {path : List (String × Nat)} (h : f.LeadsTo path g) :
    f.at? (addressOf path) = some g := by
  induction h with
  | here => rfl
  | item hactive _ ih =>
    rw [addressOf, List.map_cons, ← addressOf, Frame.at?, hactive]
    exact ih

/-- What an address leads to, a path does. -/
theorem exists_leadsTo {f g : Frame} {address : List Nat} (h : f.at? address = some g) :
    ∃ path, addressOf path = address ∧ f.LeadsTo path g := by
  induction address generalizing f with
  | nil =>
    obtain rfl := Option.some.inj h
    exact ⟨[], rfl, .here⟩
  | cons index address ih =>
    obtain ⟨m, item?, run⟩ := f
    obtain ⟨name, input, frame, delivered, active, waiting, old, rfl, hold, hat⟩ := at?_cons h
    obtain ⟨path, rfl, hpath⟩ := ih hat
    exact ⟨(name, index) :: path, rfl, .item hold hpath⟩

end Frame

/-! ## Raising -/

namespace Run

/-- A move makes the frame at the end of a path end with a fault of its own: its run ends with the
fault, or the template of its item cannot be filled.  On the way are Map states of the levels, with
indices of items that they have. -/
inductive RaisesAt (scope : Scope) (move : LeafMove) (s : Situation) :
    Frame → (address : List Nat) → (path : List (String × Nat)) → Fault → Prop
  | ended {f : Frame} {address : List Nat} {s' : Situation} {fault : Fault} (hown : fault.isOwn)
      (h : moveAt scope move f.machine f.item? s address f.run =
        some (s', .ended (.error fault))) : RaisesAt scope move s f address [] fault
  | unfilled {f : Frame} {address : List Nat} {frame : MapFrame} {name : String} {input : Json}
      {index : Nat} {item : Json} {fault : Fault}
      (hmove : (moveAt scope move f.machine f.item? s address f.run).isSome)
      (hstands : frame.StandsIn scope s f.run name input)
      (hitem : frame.Holds f.machine name input index item)
      (h : frame.startItem index item = .ended (.error fault)) :
      RaisesAt scope move s f address [(name, index)] fault
  | inside {m : Machine} {item? : Option Nat} {name : String} {input : Json} {frame : MapFrame}
      {delivered : List Json} {active : List (Nat × Run)} {waiting : List (Nat × Json)}
      {index : Nat} {item : Json} {run : Run} {address : List Nat} {path : List (String × Nat)}
      {fault : Fault} (hitem : frame.Holds m name input index item)
      (hactive : active? index active = some run)
      (h : RaisesAt scope move s ⟨frame.machine, some index, run⟩ address path fault) :
      RaisesAt scope move s ⟨m, item?, .working name input (.map frame delivered active waiting)⟩
        (index :: address) ((name, index) :: path) fault

variable {scope : Scope} {move : LeafMove} {m : Machine} {item? : Option Nat} {s s' : Situation}
  {run new : Run}

/-- A move of a leaf leads to a leaf, to an end, or to a Map state with the items of its input. -/
theorem moveLeaf_begins {P : Fault → Prop} (hrun : run.Fits m P)
    (h : moveLeaf scope move m item? s run = some (s', new)) :
    new.Fits m (Raises scope m s run) ∨
    ∃ name input s₁, ∃ (frame : MapFrame) (items : List Json),
      run = .entering name input ∧
      frame.context = Context.ofState scope.identity name s.world.now ∧
      (∃ itemProcessor? iterator?,
        m.state? name = some (.map frame.settings itemProcessor? iterator?) ∧
          processor? itemProcessor? iterator? = some frame.machine) ∧
      frame.settings.items name input = .ok (frame.effective, items) ∧
      new = (frame.settle s₁ name input []
        (frame.startItems (((List.range items.length).zip items).take
          (frame.settings.limit scope.services)))
        (((List.range items.length).zip items).drop (frame.settings.limit scope.services))).2 := by
  rcases moveLeaf_cases hrun h with hnew | ⟨name, input, rfl, hbegins⟩
  · exact .inl hnew
  obtain ⟨frame, items, itemProcessor?, iterator?, hs, hp, hitems, -⟩ := hbegins
  -- the context of the items is that of the state, so the entry has to be looked at again
  cases moves_of_moveLeaf h with
  | entering henters =>
    cases henters with
    | cancelled hcancelled => exact .inl (.cancelled hcancelled)
    | unknown _ hnone =>
      rw [hs] at hnone
      cases hnone
    | refused _ hs' hkind => exact .inl (.kind hs' (.inl hkind))
    | begun _ hs' _ hbegin =>
      obtain rfl := Option.some.inj (hs.symm.trans hs')
      simp only [State.begin, MapSettings.begin, hp, hitems] at hbegin
      exact .inr ⟨name, input, _, ⟨frame.settings, frame.machine, frame.effective, _⟩, items, rfl,
        rfl, ⟨itemProcessor?, iterator?, hs, hp⟩, hitems, (congrArg Prod.snd hbegin).symm⟩

end Run

/-- The items that a Map state begins with are those of its input. -/
theorem MapFrame.holds_of_mem {frame : MapFrame} {m : Machine} {name : String} {input : Json}
    {items : List Json}
    (hstate : ∃ itemProcessor? iterator?,
      m.state? name = some (.map frame.settings itemProcessor? iterator?) ∧
        processor? itemProcessor? iterator? = some frame.machine)
    (hitems : frame.settings.items name input = .ok (frame.effective, items)) {p : Nat × Json}
    (hp : p ∈ (List.range items.length).zip items) : frame.Holds m name input p.1 p.2 := by
  refine ⟨hstate, items, hitems, ?_⟩
  obtain ⟨i, hi⟩ := List.mem_iff_getElem?.mp hp
  obtain ⟨hindex, hitem⟩ := List.getElem?_zip_eq_some.mp hi
  obtain ⟨hlt, hrange⟩ := List.getElem?_eq_some_iff.mp hindex
  rw [List.getElem_range] at hrange
  rw [← hrange]
  exact hitem

/-! ## The cause of what is raised -/

/-- A Map state that is settled ends with a fault of its own only where its outputs cannot be
merged. -/
theorem MapFrame.ofPayload_of_settle {frame : MapFrame} {s : Situation} {name : String}
    {input : Json} {delivered : List Json} {active : List (Nat × Run)} {waiting : List (Nat × Json)}
    {fault : Fault} (hown : fault.isOwn)
    (h : (frame.settle s name input delivered active waiting).2 = .ended (.error fault)) :
    fault.OfPayload := by
  unfold MapFrame.settle at h
  split at h
  · cases h
  · next outputs _ =>
    have hfails := frame.settings.outcome_failsOnly input outputs
    cases houtcome : frame.settings.outcome input outputs with
    | ok departure =>
      rw [houtcome] at h
      cases h
    | error fault' =>
      rw [houtcome] at h
      cases h
      exact hfails fault houtcome
  · cases h
    rw [Fault.isOwn_itemFault] at hown
    cases hown

/-- **What a move raises** was caused by a payload, or by the leaf that moved: then this leaf stands
at the end of the path, and it is what ended with the fault. -/
theorem Run.RaisesAt.cause {top : Machine} {scope : Scope} {move : LeafMove} {s : Situation}
    {f : Frame} {address : List Nat} {path : List (String × Nat)} {fault : Fault}
    (h : RaisesAt scope move s f address path fault)
    (hsound : f.Everywhere (Frame.Sound top fun _ _ => True)) :
    fault.OfPayload ∨ address = addressOf path ∧ ∃ leaf s', f.LeadsTo path leaf ∧
      moveLeaf scope move leaf.machine leaf.item? s leaf.run = some (s', .ended (.error fault)) ∧
      Raises scope leaf.machine s leaf.run fault := by
  induction h with
  | @ended f address s' fault hown hmove =>
    cases address with
    | nil =>
      rcases moveLeaf_cases (hsound.here.fits hmove) hmove with
        hraises | ⟨name, input, -, frame, items, _, _, -, -, -, hsettle⟩
      · exact .inr ⟨rfl, f, s', .here, hmove, hraises⟩
      · exact .inl (MapFrame.ofPayload_of_settle hown (congrArg Prod.snd hsettle))
    | cons index address =>
      obtain ⟨_, _, _, _, _, _, _, _, _, -, -, -, hsettle⟩ := moveAt_cons hmove
      exact .inl (MapFrame.ofPayload_of_settle hown (congrArg Prod.snd hsettle))
  | @unfilled f address frame name input index item fault hmove hstands hitem hstart =>
    unfold MapFrame.startItem at hstart
    split at hstart
    · cases hstart
    · next template _ =>
      split at hstart
      · cases hstart
      · next fault' hfill =>
        cases hstart
        exact .inl (Template.fill_failsOnly _ _ template fault hfill)
  | inside hitem hactive _ ih =>
    rcases ih (hsound.inside _ (List.mem_map_of_mem (mem_of_active? hactive))) with
      hpayload | ⟨rfl, leaf, s', hpath, hmove, hraises⟩
    · exact .inl hpayload
    · exact .inr ⟨rfl, leaf, s', .item hactive hpath, hmove, hraises⟩

/-! ## Accounted frames -/

namespace Frame

/-- A frame that `R` accounts for: whatever has ended with a fault in it, has ended with what `R`
knows of, and its Map states work on the items of their inputs. -/
inductive Accounted : (R : List (String × Nat) → Fault → Prop) → Frame → Prop
  | leaf {R : List (String × Nat) → Fault → Prop} {m : Machine} {item? : Option Nat} {run : Run}
      (h : run.isLeaf) : Accounted R ⟨m, item?, run⟩
  | succeeded {R : List (String × Nat) → Fault → Prop} {m : Machine} {item? : Option Nat}
      {output : Json} : Accounted R ⟨m, item?, .ended (.ok output)⟩
  | failed {R : List (String × Nat) → Fault → Prop} {m : Machine} {item? : Option Nat}
      {fault : Fault} (h : fault.ComesFrom R) : Accounted R ⟨m, item?, .ended (.error fault)⟩
  | items {R : List (String × Nat) → Fault → Prop} {m : Machine} {item? : Option Nat}
      {name : String} {input : Json} {frame : MapFrame} {delivered : List Json}
      {active : List (Nat × Run)} {waiting : List (Nat × Json)}
      (hactive : ∀ p ∈ active, ∃ item, frame.Holds m name input p.1 item)
      (hwaiting : ∀ p ∈ waiting, frame.Holds m name input p.1 p.2)
      (h : ∀ p ∈ active,
        Accounted (fun path => R ((name, p.1) :: path)) ⟨frame.machine, some p.1, p.2⟩) :
      Accounted R ⟨m, item?, .working name input (.map frame delivered active waiting)⟩

variable {R R' : List (String × Nat) → Fault → Prop} {f g root : Frame} {m : Machine}
  {item? : Option Nat} {run : Run} {fault : Fault}

theorem Accounted.comesFrom (h : Accounted R ⟨m, item?, .ended (.error fault)⟩) :
    fault.ComesFrom R := by
  cases h with
  | leaf h => cases h
  | failed h => exact h

theorem Accounted.mono (h : f.Accounted R) (hR : ∀ path leaf, R path leaf → R' path leaf) :
    f.Accounted R' := by
  induction h generalizing R' with
  | leaf h => exact .leaf h
  | succeeded => exact .succeeded
  | failed h => exact .failed (h.mono hR)
  | items hactive hwaiting _ ih =>
    exact .items hactive hwaiting fun p hp => ih p hp fun path leaf => hR _ leaf

/-- What a path leads to is accounted for. -/
theorem Accounted.of_leadsTo {path : List (String × Nat)} (h : f.Accounted R)
    (hpath : f.LeadsTo path g) : g.Accounted fun inner => R (path ++ inner) := by
  induction hpath generalizing R with
  | here => exact h
  | item hactive _ ih =>
    cases h with
    | leaf h => cases h
    | items _ _ h => exact ih (h _ (Run.mem_of_active? hactive))

/-- What a move raises inside a frame, it raises at the end of the path that leads there. -/
theorem Accounted.raisesAt {path inner : List (String × Nat)} (h : f.Accounted R)
    (hpath : f.LeadsTo path g) {scope : Scope} {move : Run.LeafMove} {s : Situation}
    {address : List Nat} (hraises : Run.RaisesAt scope move s g address inner fault) :
    Run.RaisesAt scope move s f (addressOf path ++ address) (path ++ inner) fault := by
  induction hpath generalizing R with
  | here => exact hraises
  | item hactive _ ih =>
    cases h with
    | leaf h => cases h
    | items hitems _ h =>
      have hmem := Run.mem_of_active? hactive
      obtain ⟨item, hitem⟩ := hitems _ hmem
      exact .inside hitem hactive (ih (h _ hmem) hraises)

/-- A leaf that fits a level is accounted for if what it fails with is. -/
theorem accounted_of_fits {P : Fault → Prop} (h : run.Fits m P)
    (hfault : ∀ fault, run = .ended (.error fault) → P fault → fault.ComesFrom R) :
    Accounted R ⟨m, item?, run⟩ := by
  cases run with
  | entering name payload => exact .leaf rfl
  | leaving name departure => exact .leaf rfl
  | working name input work =>
    cases work with
    | task work => exact .leaf rfl
    | wait work => exact .leaf rfl
    | map frame delivered active waiting => exact h.elim
  | ended result =>
    cases result with
    | ok output => exact .succeeded
    | error fault => exact .failed (hfault fault rfl h)

section

variable {frame : MapFrame} {name : String} {input : Json}
  (hunfilled : ∀ index item fault, frame.Holds m name input index item →
    frame.startItem index item = .ended (.error fault) → R [(name, index)] fault)

include hunfilled

theorem accounted_startItem {p : Nat × Json} (h : frame.Holds m name input p.1 p.2) :
    Accounted (fun path => R ((name, p.1) :: path))
      ⟨frame.machine, some p.1, frame.startItem p.1 p.2⟩ := by
  have hfails := hunfilled p.1 p.2
  unfold MapFrame.startItem at hfails ⊢
  split at hfails
  · exact .leaf rfl
  · next template _ =>
    split at hfails
    · exact .leaf rfl
    · next fault hfill =>
      have hown := (Template.fill_failsOnly _ _ template fault hfill).isOwn
      exact .failed (.raised hown (hfails fault h rfl))

/-- A Map state whose items are accounted for is so when it is settled, with what it then fails
with by itself. -/
theorem accounted_settle {active : List (Nat × Run)} {waiting : List (Nat × Json)}
    (hactive : ∀ p ∈ active, ∃ item, frame.Holds m name input p.1 item)
    (hwaiting : ∀ p ∈ waiting, frame.Holds m name input p.1 p.2)
    (h : ∀ p ∈ active,
      Accounted (fun path => R ((name, p.1) :: path)) ⟨frame.machine, some p.1, p.2⟩)
    (s : Situation) (delivered : List Json)
    (houtcome : ∀ fault, fault.isOwn →
      (frame.settle s name input delivered active waiting).2 = .ended (.error fault) →
      R [] fault) :
    Accounted R ⟨m, item?, (frame.settle s name input delivered active waiting).2⟩ := by
  have hall : (frame.handOver delivered active waiting).All fun p =>
      (∃ item, frame.Holds m name input p.1 item) ∧
        Accounted (fun path => R ((name, p.1) :: path)) ⟨frame.machine, some p.1, p.2⟩ :=
    frame.handOver_all (fun p hp => ⟨hactive p hp, h p hp⟩) fun p hp =>
      ⟨⟨p.2, hwaiting p hp⟩, accounted_startItem hunfilled (hwaiting p hp)⟩
  unfold MapFrame.settle at houtcome ⊢
  split at houtcome
  · next delivered' active' waiting' heq =>
    rw [heq] at hall
    exact .items (fun p hp => (hall p hp).1)
      (fun p hp => hwaiting p (MapFrame.handOver_waiting heq hp)) fun p hp => (hall p hp).2
  · next outputs _ =>
    cases hmerged : frame.settings.outcome input outputs with
    | ok departure => exact .leaf rfl
    | error fault =>
      have hown := (frame.settings.outcome_failsOnly input outputs fault hmerged).isOwn
      rw [hmerged] at houtcome
      exact .failed (.raised hown (houtcome fault hown rfl))
  · next index fault dropped heq =>
    rw [heq] at hall
    exact .failed hall.1.2.comesFrom.itemFault

end

/-- A leaf that moves is accounted for by what its move raises. -/
theorem Accounted.moveLeaf {top : Machine} {scope : Scope} {move : Run.LeafMove}
    {s s' : Situation} {run' : Run} (hsound : f.Sound top fun _ _ => True)
    (h : Run.moveAt scope move f.machine f.item? s [] f.run = some (s', run'))
    (hR : ∀ path fault, Run.RaisesAt scope move s f [] path fault → R path fault) :
    Accounted R { f with run := run' } := by
  rcases Run.moveLeaf_begins (hsound.fits h) h with
    hnew | ⟨name, input, s₁, frame, items, hrun, hcontext, hstate, hitems, rfl⟩
  · refine accounted_of_fits hnew fun fault hended hraises => ?_
    rcases hraises.isOwn with hcancelled | hown
    · exact .inl hcancelled
    · exact .raised hown (hR [] fault (.ended hown (hended ▸ h)))
  · have hholds := @frame.holds_of_mem f.machine name input items hstate hitems
    have hunfilled : ∀ index item fault, frame.Holds f.machine name input index item →
        frame.startItem index item = .ended (.error fault) → R [(name, index)] fault := by
      intro index item fault hitem hstart
      refine hR _ fault (.unfilled (by rw [h]; rfl) ?_ hitem hstart)
      rw [hrun]
      exact .entering hcontext
    refine accounted_settle hunfilled (fun p hp => ?_)
      (fun p hp => hholds (List.mem_of_mem_drop hp)) (fun p hp => ?_) s₁ []
      fun fault hown hended => hR [] fault (.ended hown (hended ▸ h))
    · obtain ⟨q, hq, rfl⟩ := List.mem_map.mp hp
      exact ⟨q.2, hholds (List.mem_of_mem_take hq)⟩
    · obtain ⟨q, hq, rfl⟩ := List.mem_map.mp hp
      exact accounted_startItem hunfilled (hholds (List.mem_of_mem_take hq))

/-- **A move leaves a frame accounted for** by what the move raises and where. -/
theorem Accounted.moveAt {top : Machine} {scope : Scope} {move : Run.LeafMove} {s s' : Situation}
    {address : List Nat} {run' : Run} (hf : f.Accounted R)
    (hsound : f.Everywhere (Sound top fun _ _ => True))
    (h : Run.moveAt scope move f.machine f.item? s address f.run = some (s', run'))
    (hR : ∀ path fault, Run.RaisesAt scope move s f address path fault → R path fault) :
    Accounted R { f with run := run' } := by
  induction address generalizing f R s' run' with
  | nil => exact Accounted.moveLeaf hsound.here h hR
  | cons index address ih =>
    obtain ⟨m, item?, run⟩ := f
    obtain ⟨name, input, frame, delivered, active, waiting, old, s₁, new, rfl, hold, hnew, hs⟩ :=
      Run.moveAt_cons h
    obtain rfl : _ = run' := congrArg Prod.snd hs
    cases hf with
    | leaf hleaf => cases hleaf
    | items hactive hwaiting hitems =>
      have hmem := Run.mem_of_active? hold
      have hnew' : Accounted (fun path => R ((name, index) :: path))
          ⟨frame.machine, some index, new⟩ :=
        ih (hitems _ hmem) (hsound.inside _ (List.mem_map_of_mem hmem)) hnew
          fun path fault hraises => by
            obtain ⟨item, hitem⟩ := hactive _ hmem
            exact hR _ fault (.inside hitem hold hraises)
      refine accounted_settle (fun index item fault hitem hstart => ?_) (fun p hp => ?_) hwaiting
        (fun p hp => ?_) s₁ delivered fun fault hown hended => ?_
      · exact hR _ fault (.unfilled (by rw [h]; rfl) .working hitem hstart)
      · rcases Run.mem_setActive hp with hp | rfl
        · exact hactive p hp
        · exact hactive (index, old) hmem
      · rcases Run.mem_setActive hp with hp | rfl
        · exact hitems p hp
        · exact hnew'
      · exact hR [] fault (.ended hown (hended ▸ h))

end Frame

end StateFlow
