import StateFlow.Proofs.Execution.Trace
import StateFlow.Proofs.Machine.WellFormed

/-!
# The states that a run is inside of

A run of a machine is inside a state from the moment at which it tells of the entry of the state to
the moment at which it tells of the exit.  The runs of Map items are inside states of their own, at
the same time, so a tree of runs has one such invocation at most at each of its addresses.

A move tells one event at most, at the address of the leaf that moves.  What is inside a state
afterwards was inside it before, or has just told of its entry (`Run.moveAt_inside`).  Where the
names of all levels are distinct, invocations of one state stand at addresses of one length
(`Frame.length_eq_of_inside`).

## Main definitions

* `Run.inside?`, `Frame.inside?`: the state that a run, or the run at an address, is inside of
* `Telling`, `Execution.tellings`: the events of states with the addresses they are told from
* `Execution.Opens`: the event that tells of the entry of an invocation that is running
* `Frame.Numbered`: the items of a Map state at work are numbered, each once

## Main results

* `Frame.everywhere_numbered_moveAt`: items stay numbered
* `Run.moveAt_inside`: what is inside a state after a move
* `Execution.Recounts.change`: what an execution tells is recounted, with the invocations it opens
* `Frame.length_eq_of_inside`: a name tells how deep its invocations are
-/

namespace StateFlow

/-- The state that a run has entered and not left. -/
def Run.inside? : Run → Option String
  | working name _ _ | leaving name _ => some name
  | entering _ _ | ended _ => none

namespace Frame

/-- The state that the run at an address has entered and not left. -/
def inside? (f : Frame) (address : List Nat) : Option String :=
  (f.at? address).bind (·.run.inside?)

/-- The items of a Map state at work are numbered, each once. -/
def Numbered (f : Frame) : Prop :=
  match f.run with
  | .working _ _ (.map _ _ active waiting) => (active.map (·.1) ++ waiting.map (·.1)).Nodup
  | _ => True

variable {root m : Machine} {R : Machine → Fault → Prop} {item? : Option Nat}

@[simp] theorem inside?_nil (f : Frame) : f.inside? [] = f.run.inside? := rfl

theorem inside?_map (m : Machine) (item? : Option Nat) (name : String) (input : Json)
    (frame : MapFrame) (delivered : List Json) (active : List (Nat × Run))
    (waiting : List (Nat × Json)) (index : Nat) (address : List Nat) :
    inside? ⟨m, item?, .working name input (.map frame delivered active waiting)⟩
      (index :: address) = (Run.active? index active).bind fun run =>
        inside? ⟨frame.machine, some index, run⟩ address := by
  simp [inside?, at?, Option.bind_assoc]

/-- Where there are no items, nothing is inside a state below. -/
theorem inside?_cons_of_items {f : Frame} (hf : f.items = []) (index : Nat) (address : List Nat) :
    f.inside? (index :: address) = none := by
  obtain ⟨m, item?, run⟩ := f
  cases run with
  | working name input work =>
    cases work with
    | map frame delivered active waiting =>
      obtain rfl : active = [] := List.map_eq_nil_iff.mp hf
      rw [inside?_map]
      rfl
    | task work => rfl
    | wait work => rfl
  | entering name payload => rfl
  | leaving name departure => rfl
  | ended result => rfl

theorem items_of_fits {P : Fault → Prop} {run : Run} (h : run.Fits m P) :
    items ⟨m, item?, run⟩ = [] := by
  cases run with
  | working name input work =>
    cases work with
    | map frame delivered active waiting => exact h.elim
    | task work => rfl
    | wait work => rfl
  | entering name payload => rfl
  | leaving name departure => rfl
  | ended result => rfl

/-- An item that starts has not entered a state yet. -/
theorem inside?_startItem (m : Machine) (item? : Option Nat) (frame : MapFrame) (index : Nat)
    (item : Json) (address : List Nat) :
    inside? ⟨m, item?, frame.startItem index item⟩ address = none := by
  unfold MapFrame.startItem
  cases address with
  | nil =>
    split
    · rfl
    · split <;> rfl
  | cons i address =>
    split
    · rfl
    · split <;> rfl

/-- Settling a Map state leaves its items where they are, or drops them all with it. -/
theorem inside?_settle {frame : MapFrame} {active : List (Nat × Run)} {waiting : List (Nat × Json)}
    (hindices : (active.map (·.1) ++ waiting.map (·.1)).Nodup) (s : Situation) (name : String)
    (input : Json) (delivered : List Json) {address : List Nat} {state : String}
    (h : inside? ⟨m, item?, (frame.settle s name input delivered active waiting).2⟩ address =
      some state) :
    inside? ⟨m, item?, .working name input (.map frame delivered active waiting)⟩ address =
      some state := by
  have hall : (frame.handOver delivered active waiting).All fun p =>
      p ∈ active ∨ ∃ item, p.2 = frame.startItem p.1 item :=
    frame.handOver_all (fun p hp => .inl hp) fun p _ => .inr ⟨p.2, rfl⟩
  unfold MapFrame.settle at h
  split at h
  · next delivered' active' waiting' heq =>
    rw [heq] at hall
    cases address with
    | nil => exact h
    | cons index address =>
      rw [inside?_map] at h ⊢
      obtain ⟨run, hrun, hinside⟩ := Option.bind_eq_some_iff.mp h
      rcases hall _ (Run.mem_of_active? hrun) with hmem | ⟨item, hstarted⟩
      · have hold := (Run.active?_eq_some_iff (List.nodup_append.mp hindices).1).mpr hmem
        rw [hold]
        exact hinside
      · obtain rfl : run = frame.startItem index item := hstarted
        rw [inside?_startItem] at hinside
        cases hinside
  · next outputs _ =>
    cases houtcome : frame.settings.outcome input outputs with
    | error fault =>
      rw [houtcome] at h
      cases address <;> cases h
    | ok departure =>
      rw [houtcome] at h
      cases address with
      | nil => exact h
      | cons index address => cases h
  · cases address <;> cases h

/-! ## Numbered items -/

theorem everywhere_numbered_of_fits {P : Fault → Prop} {run : Run} (h : run.Fits m P) :
    Everywhere Numbered ⟨m, item?, run⟩ := by
  refine .of_items_eq_nil (items_of_fits h) ?_
  cases run with
  | working name input work =>
    cases work with
    | map frame delivered active waiting => exact h.elim
    | task work => trivial
    | wait work => trivial
  | entering name payload => trivial
  | leaving name departure => trivial
  | ended result => trivial

theorem everywhere_numbered_startItem (m : Machine) (item? : Option Nat) (frame : MapFrame)
    (index : Nat) (item : Json) :
    Everywhere Numbered ⟨m, item?, frame.startItem index item⟩ := by
  unfold MapFrame.startItem
  split
  · exact .of_items_eq_nil rfl trivial
  · split
    · exact .of_items_eq_nil rfl trivial
    · exact .of_items_eq_nil rfl trivial

theorem everywhere_numbered_settle {frame : MapFrame} {active : List (Nat × Run)}
    {waiting : List (Nat × Json)} (hindices : (active.map (·.1) ++ waiting.map (·.1)).Nodup)
    (hactive : ∀ p ∈ active, Everywhere Numbered ⟨frame.machine, some p.1, p.2⟩) (s : Situation)
    (name : String) (input : Json) (delivered : List Json) :
    Everywhere Numbered ⟨m, item?, (frame.settle s name input delivered active waiting).2⟩ := by
  refine everywhere_settle hactive (fun p _ => everywhere_numbered_startItem _ _ frame p.1 p.2)
    (fun _ _ _ heq => frame.handOver_indices hindices heq) (fun outputs => ?_)
    (fun _ _ _ => .of_items_eq_nil rfl trivial) s
  cases frame.settings.outcome input outputs <;> exact .of_items_eq_nil rfl trivial

/-- **Items stay numbered** in every move. -/
theorem everywhere_numbered_moveAt {scope : Scope} {move : Run.LeafMove} {s s' : Situation}
    {address : List Nat} {f : Frame} {run' : Run} (hsound : f.Everywhere (Sound root R))
    (hf : f.Everywhere Numbered)
    (h : Run.moveAt scope move f.machine f.item? s address f.run = some (s', run')) :
    Everywhere Numbered { f with run := run' } := by
  refine hf.moveAt h (fun leaf s₁ new hat _ hmove => ?_) ?_
  · have hfits := (hsound.of_at? hat).here.fits hmove
    rcases Run.moveLeaf_cases hfits hmove with hnew | ⟨name, input, -, hbegins⟩
    · exact everywhere_numbered_of_fits hnew
    · obtain ⟨frame, items, _, _, -, -, -, hsettle⟩ := hbegins
      obtain rfl : _ = new := congrArg Prod.snd hsettle
      refine everywhere_numbered_settle (frame.nodup_numbered _ items) (fun p hp => ?_) _ name input
        []
      obtain ⟨⟨index, item⟩, -, rfl⟩ := List.mem_map.mp hp
      exact everywhere_numbered_startItem _ _ frame index item
  · intro m item? name input frame delivered active waiting index new s₁ hmap hactive
    have hindices : (active.map (·.1) ++ waiting.map (·.1)).Nodup := hmap
    rw [← Run.map_fst_setActive index new active] at hindices
    exact everywhere_numbered_settle hindices hactive s₁ name input delivered

/-! ## Items and depths -/

/-- A frame walks through a level as deep as its address is long. -/
theorem levelAt_of_at? {f g : Frame} {address : List Nat} (hsound : f.Everywhere (Sound root R))
    (hat : f.at? address = some g) : f.machine.LevelAt address.length g.machine := by
  induction address generalizing f with
  | nil =>
    obtain rfl := Option.some.inj hat
    exact .top _
  | cons index address ih =>
    obtain ⟨m, item?, run⟩ := f
    obtain ⟨name, input, frame, delivered, active, waiting, old, rfl, hold, hat⟩ := at?_cons hat
    obtain ⟨itemProcessor?, iterator?, hs, hp⟩ := hsound.here.run
    have hitem := hsound.inside _ (List.mem_map_of_mem (Run.mem_of_active? hold))
    exact .inside (Entries.mem_of_get? hs) hp (ih hitem hat)

/-- A sound frame is inside a state of its level. -/
theorem Sound.inside_mem {f : Frame} (hf : f.Sound root R) {state : String}
    (h : f.run.inside? = some state) : state ∈ Entries.keys f.machine.states := by
  obtain ⟨m, item?, run⟩ := f
  rw [Entries.mem_keys_iff, Option.isSome_iff_exists]
  have hrun := hf.run
  cases run with
  | working name input work =>
    obtain rfl := Option.some.inj h
    cases work with
    | map frame delivered active waiting =>
      obtain ⟨_, _, hs, -⟩ := hrun
      exact ⟨_, hs⟩
    | task work => exact ⟨_, hrun⟩
    | wait work => exact ⟨_, hrun⟩
  | leaving name departure =>
    obtain rfl := Option.some.inj h
    obtain ⟨state, hs, -⟩ := hrun
    exact ⟨state, hs⟩
  | entering name payload => cases h
  | ended result => cases h

/-- **Invocations of one state stand at addresses of one length.** -/
theorem length_eq_of_inside {f : Frame} (hsound : f.Everywhere (Sound root R))
    (hnodup : f.machine.stateNames.Nodup) {address address' : List Nat} {state : String}
    (h : f.inside? address = some state) (h' : f.inside? address' = some state) :
    address.length = address'.length := by
  obtain ⟨g, hat, hg⟩ := Option.bind_eq_some_iff.mp h
  obtain ⟨g', hat', hg'⟩ := Option.bind_eq_some_iff.mp h'
  exact (levelAt_of_at? hsound hat).depth_unique hnodup (levelAt_of_at? hsound hat')
    ((hsound.of_at? hat).here.inside_mem hg) ((hsound.of_at? hat').here.inside_mem hg')

end Frame

/-! ## Moves -/

namespace Run

variable {scope : Scope} {move : LeafMove} {m : Machine} {item? : Option Nat} {s s' : Situation}
  {run run' : Run}

theorem inside?_ofOutcome {name state : String} {x : Except Fault Departure}
    (h : (ofOutcome name x).inside? = some state) : name = state := by
  cases x with
  | ok departure => exact Option.some.inj h
  | error fault => cases h

/-- Who stands inside a state has entered that state. -/
theorem StandsAt.inside?_eq {identity : Identity} {name state : String} {input : Json}
    (hstands : run.StandsAt m identity (.inside name input)) (h : run.inside? = some state) :
    name = state := by
  cases run with
  | entering name' payload => cases h
  | working name' input' work =>
    obtain ⟨heq, -⟩ := hstands
    cases heq
    exact Option.some.inj h
  | leaving name' departure =>
    obtain ⟨input', heq, -⟩ := hstands
    cases heq
    exact Option.some.inj h
  | ended result => cases h

/-- What a leaf tells in a move, and whether it is inside a state after it. -/
def LeafTells (item? : Option Nat) (told : List Event) (run run' : Run) : Prop :=
  (∀ event ∈ told, event.IsOf item?) ∧ ∀ state, run'.inside? = some state →
    (told = [] ∧ run.inside? = some state) ∨
      ∃ kind input, told = [.stateEntered state kind input item?]

theorem moveLeaf_tells (hmove : moveLeaf scope move m item? s run = some (s', run')) :
    ∃ told, s'.events = s.events ++ told ∧ LeafTells item? told run run' := by
  have hsilent : s'.events = s.events →
      (∀ state, run'.inside? = some state → run.inside? = some state) →
      ∃ told, s'.events = s.events ++ told ∧ LeafTells item? told run run' := by
    intro heq hinside
    exact ⟨[], by simp [heq], by simp, fun state h => .inl ⟨rfl, hinside state h⟩⟩
  have hended : s'.events = s.events → run'.inside? = none →
      ∃ told, s'.events = s.events ++ told ∧ LeafTells item? told run run' := by
    intro heq hnone
    exact hsilent heq (by simp [hnone])
  cases moves_of_moveLeaf hmove with
  | entering h =>
    cases h with
    | @begun state _ _ _ hs _ hbegin =>
      obtain rfl : _ = s' := congrArg Prod.fst hbegin
      obtain rfl : _ = run' := congrArg Prod.snd hbegin
      refine ⟨_, State.begin_events state _ _ _ _ _, by simp [Event.IsOf], fun name h => ?_⟩
      obtain rfl := (@State.begin_standsAt m scope.identity _ state hs scope.services _ _ _
        ).inside?_eq h
      exact .inr ⟨_, _, rfl⟩
    | _ => exact hended rfl rfl
  | leaving h =>
    cases h with
    | cancelled _ => exact hended rfl rfl
    | next _ _ => exact ⟨_, rfl, by simp [Event.IsOf], by simp [inside?]⟩
    | last _ _ => exact ⟨_, rfl, by simp [Event.IsOf], by simp [inside?]⟩
  | going h => exact hsilent h.keeps.events fun state hstate => hstate
  | done h =>
    exact hsilent h.keeps.events fun state hstate => congrArg some (inside?_ofOutcome hstate)
  | timedOut _ => exact hended rfl rfl
  | heeded _ => exact hended rfl rfl
  | slept _ => exact hsilent rfl fun state hstate => congrArg some (inside?_ofOutcome hstate)
  | woken _ => exact hended rfl rfl

/-- Nothing is inside a state below a leaf that has moved. -/
theorem inside?_moveLeaf {root : Machine} {R : Machine → Fault → Prop}
    (hleaf : Frame.Sound root R ⟨m, item?, run⟩)
    (hmove : moveLeaf scope move m item? s run = some (s', run')) (index : Nat)
    (address : List Nat) : Frame.inside? ⟨m, item?, run'⟩ (index :: address) = none := by
  rcases moveLeaf_cases (hleaf.fits hmove) hmove with hnew | ⟨name, input, -, hbegins⟩
  · exact Frame.inside?_cons_of_items (Frame.items_of_fits hnew) index address
  · obtain ⟨frame, items, _, _, -, -, -, hsettle⟩ := hbegins
    obtain rfl : _ = run' := congrArg Prod.snd hsettle
    rw [Option.eq_none_iff_forall_ne_some]
    intro state h
    -- what is inside a state below was before the items were settled, when they had just started
    have hinside := Frame.inside?_settle (frame.nodup_numbered _ items) _ name input [] h
    rw [Frame.inside?_map] at hinside
    obtain ⟨old, hold, hinside⟩ := Option.bind_eq_some_iff.mp hinside
    obtain ⟨⟨i, item⟩, -, heq⟩ := List.mem_map.mp (mem_of_active? hold)
    obtain rfl : frame.startItem i item = old := congrArg Prod.snd heq
    rw [Frame.inside?_startItem] at hinside
    cases hinside

/-- What is inside a state once a Map state is settled with a new run of one of its items: what was
inside it before at an address that does not lead into this item, or what is inside it in the new
run. -/
theorem inside?_settle_setActive {frame : MapFrame} {active : List (Nat × Run)}
    {waiting : List (Nat × Json)} {index : Nat} {new : Run}
    (hindices : (active.map (·.1) ++ waiting.map (·.1)).Nodup) (s : Situation) (name : String)
    (input : Json) (delivered : List Json) {address : List Nat} {state : String}
    (h : Frame.inside? ⟨m, item?, (frame.settle s name input delivered
      (setActive index new active) waiting).2⟩ address = some state) :
    (address.head? ≠ some index ∧ Frame.inside? ⟨m, item?, .working name input
      (.map frame delivered active waiting)⟩ address = some state) ∨
    ∃ inner, address = index :: inner ∧
      Frame.inside? ⟨frame.machine, some index, new⟩ inner = some state := by
  have hindices' : ((setActive index new active).map (·.1) ++ waiting.map (·.1)).Nodup := by
    rwa [map_fst_setActive]
  have hbefore := Frame.inside?_settle hindices' s name input delivered h
  have hactive := (List.nodup_append.mp hindices).1
  cases address with
  | nil => exact .inl ⟨nofun, hbefore⟩
  | cons index' inner =>
    rw [Frame.inside?_map] at hbefore ⊢
    obtain ⟨other, hother, hstate⟩ := Option.bind_eq_some_iff.mp hbefore
    rcases mem_setActive_of_nodup hactive (mem_of_active? hother) with heq | ⟨hmem, hne⟩
    · obtain ⟨rfl, rfl⟩ := Prod.mk.inj heq
      exact .inr ⟨inner, rfl, hstate⟩
    · rw [(active?_eq_some_iff hactive).mpr hmem]
      exact .inl ⟨fun heq => hne (Option.some.inj heq), hstate⟩

/-- **What is inside a state after a move was inside it before**, at an address from which the move
has told nothing; or it has entered the state in the move, and told so. -/
theorem moveAt_inside {root : Machine} {R : Machine → Fault → Prop} {address : List Nat}
    (hsound : Frame.Everywhere (Frame.Sound root R) ⟨m, item?, run⟩)
    (hnumbered : Frame.Everywhere Frame.Numbered ⟨m, item?, run⟩)
    (hmove : moveAt scope move m item? s address run = some (s', run')) :
    ∃ told, s'.events = s.events ++ told ∧
      (∀ event ∈ told, event.IsOf (address.getLast?.or item?)) ∧
      ∀ address' state, Frame.inside? ⟨m, item?, run'⟩ address' = some state →
        Frame.inside? ⟨m, item?, run⟩ address' = some state ∧ (address' = address → told = []) ∨
        address' = address ∧
          ∃ kind input, told = [.stateEntered state kind input (address.getLast?.or item?)] := by
  induction address generalizing m item? run s' run' with
  | nil =>
    obtain ⟨told, hevents, htold, hinside⟩ := moveLeaf_tells hmove
    refine ⟨told, hevents, htold, fun address' state h => ?_⟩
    cases address' with
    | nil =>
      rcases hinside state h with ⟨hnil, hstate⟩ | hentered
      · exact .inl ⟨hstate, fun _ => hnil⟩
      · exact .inr ⟨rfl, hentered⟩
    | cons index address' =>
      rw [inside?_moveLeaf hsound.here hmove] at h
      cases h
  | cons index address ih =>
    obtain ⟨name, input, frame, delivered, active, waiting, old, s₁, new, rfl, hold, hnew, hs⟩ :=
      moveAt_cons hmove
    have hindices : (active.map (·.1) ++ waiting.map (·.1)).Nodup := hnumbered.here
    have hitem := List.mem_map_of_mem (f := fun p => (⟨frame.machine, some p.1, p.2⟩ : Frame))
      (mem_of_active? hold)
    obtain ⟨told, hevents, htold, hinside⟩ :=
      ih (hsound.inside _ hitem) (hnumbered.inside _ hitem) hnew
    have hlast : (index :: address).getLast?.or item? = address.getLast?.or (some index) := by
      rw [List.getLast?_cons]
      cases address.getLast? <;> rfl
    rw [hlast]
    obtain ⟨tokens, hfst⟩ := frame.settle_fst s₁ name input delivered
      (setActive index new active) waiting
    obtain rfl : s₁.release tokens = s' := hfst.symm.trans (congrArg Prod.fst hs)
    obtain rfl : _ = run' := congrArg Prod.snd hs
    refine ⟨told, hevents, htold, fun address' state h => ?_⟩
    rcases inside?_settle_setActive hindices s₁ name input delivered h with
      ⟨hother, hbefore⟩ | ⟨inner, rfl, hnew⟩
    · refine .inl ⟨hbefore, ?_⟩
      rintro rfl
      exact (hother rfl).elim
    · rw [Frame.inside?_map, hold, Option.bind_some]
      rcases hinside inner state hnew with ⟨hstate, hnil⟩ | ⟨rfl, hentered⟩
      · exact .inl ⟨hstate, fun h => hnil (List.cons.inj h).2⟩
      · exact .inr ⟨rfl, hentered⟩

end Run

/-! ## Executions -/

/-- The state and the item of an event that tells of an entry. -/
def Event.entry? : Event → Option (String × Option Nat)
  | stateEntered state _ _ item? => some (state, item?)
  | _ => none

/-- An event of a state, with the address of the run that told it. -/
structure Telling where
  address : List Nat
  event : Event

namespace Execution

/-- The state that the run at an address of an execution has entered and not left. -/
def inside? (e : Execution) (address : List Nat) : Option String :=
  e.frame?.bind (·.inside? address)

/-- What a change of an execution tells of states, from the address of the leaf that moves. -/
def tellings (leaf? : Option (Run.LeafMove × List Nat)) (e e' : Execution) : List Telling :=
  ((e'.events.drop e.events.length).filter Event.isOfState).map
    (⟨(leaf?.map (·.2)).getD [], ·⟩)

/-- The event at a position tells of the entry of a state, and its invocation is running: the run
that told it is inside the state and has told nothing since. -/
structure Opens (e : Execution) (log : List Telling) (position : Nat) (address : List Nat)
    (state : String) (item? : Option Nat) : Prop where
  entered : ∃ t, log[position]? = some t ∧ t.address = address ∧
    t.event.entry? = some (state, item?)
  running : e.inside? address = some state
  last : ∀ t ∈ log.drop (position + 1), t.address ≠ address

/-- State and item tell the running invocations apart: at most one event that opens one has both. -/
def ToldApart (e : Execution) (log : List Telling) : Prop :=
  ∀ i j address address' state item?, e.Opens log i address state item? →
    e.Opens log j address' state item? → i = j

/-- A log is what an execution has told of states, each event with the item at the end of its
address, and each running invocation is open in it. -/
structure Recounts (e : Execution) (log : List Telling) : Prop where
  events : log.map (·.event) = e.events.filter Event.isOfState
  items : ∀ t ∈ log, t.event.IsOf t.address.getLast?
  opens : ∀ address state, e.inside? address = some state →
    ∃ position, e.Opens log position address state address.getLast?
  sound : e.Sound fun _ _ => True
  numbered : ∀ root, e.frame? = some root → root.Everywhere Frame.Numbered

variable {e e' : Execution} {log : List Telling}

/-! ### Open invocations -/

theorem Opens.lt_length {position : Nat} {address : List Nat} {state : String} {item? : Option Nat}
    (h : e.Opens log position address state item?) : position < log.length := by
  obtain ⟨t, ht, -⟩ := h.entered
  exact (List.getElem?_eq_some_iff.mp ht).1

/-- An address opens one invocation at most. -/
theorem Opens.unique {i j : Nat} {address : List Nat} {state state' : String}
    {item? item?' : Option Nat} (hi : e.Opens log i address state item?)
    (hj : e.Opens log j address state' item?') : i = j := by
  have hle : ∀ {i j : Nat} {state state' : String} {item? item?' : Option Nat},
      e.Opens log i address state item? → e.Opens log j address state' item?' → j ≤ i := by
    intro i j state state' item? item?' hi hj
    by_contra hlt
    obtain ⟨t, ht, haddress, -⟩ := hj.entered
    -- the later one would be told from the address after the earlier one
    refine hi.last t (List.mem_iff_getElem?.mpr ⟨j - (i + 1), ?_⟩) haddress
    rw [List.getElem?_drop, show i + 1 + (j - (i + 1)) = j by omega]
    exact ht
  exact Nat.le_antisymm (hle hj hi) (hle hi hj)

/-- An open invocation stays open when nothing is told from its address. -/
theorem Opens.append {position : Nat} {address : List Nat} {state : String} {item? : Option Nat}
    (h : e.Opens log position address state item?) {told : List Telling}
    (htold : ∀ t ∈ told, t.address ≠ address) (hrunning : e'.inside? address = some state) :
    e'.Opens (log ++ told) position address state item? := by
  have hlt := h.lt_length
  obtain ⟨t, ht, hentered⟩ := h.entered
  refine ⟨⟨t, ?_, hentered⟩, hrunning, fun t ht => ?_⟩
  · rw [List.getElem?_append_left hlt]
    exact ht
  · rw [List.drop_append_of_le_length (by omega)] at ht
    exact (List.mem_append.mp ht).elim (h.last t) (htold t)

/-! ### Changes -/

theorem tellings_eq {leaf? : Option (Run.LeafMove × List Nat)} (told rest : List Event)
    (hevents : e'.events = e.events ++ told ++ rest)
    (htold : ∀ event ∈ told, event.isOfState = true)
    (hrest : ∀ event ∈ rest, event.isOfState = false) :
    e.tellings leaf? e' = told.map (⟨(leaf?.map (·.2)).getD [], ·⟩) := by
  have hfilter : (told ++ rest).filter Event.isOfState = told := by
    rw [List.filter_append, List.filter_eq_self.mpr htold,
      List.filter_eq_nil_iff.mpr fun event h => Bool.eq_false_iff.mp (hrest event h),
      List.append_nil]
  rw [tellings, hevents, List.append_assoc, List.drop_left, hfilter]

theorem recounts_create (identity : Identity) (machine : Machine) :
    (create identity machine).Recounts [] :=
  ⟨rfl, by simp, nofun, trivial, nofun⟩

/-- What an execution tells is recounted, if it is inside the states that it was inside of before or
has told the entry of. -/
theorem Recounts.tell {leaf? : Option (Run.LeafMove × List Nat)} {address : List Nat}
    (h : e.Recounts log) (haddress : (leaf?.map (·.2)).getD [] = address) (told rest : List Event)
    (hevents : e'.events = e.events ++ told ++ rest)
    (htold : ∀ event ∈ told, event.IsOf address.getLast?)
    (hrest : ∀ event ∈ rest, event.isOfState = false)
    (hinside : ∀ address' state, e'.inside? address' = some state →
      e.inside? address' = some state ∧ (address' = address → told = []) ∨
      address' = address ∧ ∃ kind input, told = [.stateEntered state kind input address.getLast?])
    (hsound : e'.Sound fun _ _ => True)
    (hnumbered : ∀ root, e'.frame? = some root → root.Everywhere Frame.Numbered) :
    e'.Recounts (log ++ e.tellings leaf? e') := by
  have hstates : ∀ event ∈ told, event.isOfState = true := fun event hevent =>
    (htold event hevent).isOfState
  rw [tellings_eq told rest hevents hstates hrest, haddress]
  refine ⟨?_, fun t ht => ?_, fun address' state hstate => ?_, hsound, hnumbered⟩
  · rw [hevents, List.filter_append, List.filter_append, List.filter_eq_self.mpr hstates,
      List.filter_eq_nil_iff.mpr fun event h => Bool.eq_false_iff.mp (hrest event h),
      List.append_nil, List.map_append, h.events]
    simp [Function.comp_def]
  · rcases List.mem_append.mp ht with ht | ht
    · exact h.items t ht
    · obtain ⟨event, hevent, rfl⟩ := List.mem_map.mp ht
      exact htold event hevent
  · rcases hinside address' state hstate with ⟨hbefore, hsilent⟩ | ⟨rfl, kind, input, rfl⟩
    · obtain ⟨position, hopen⟩ := h.opens address' state hbefore
      refine ⟨position, hopen.append (fun t ht => ?_) hstate⟩
      obtain ⟨event, hevent, rfl⟩ := List.mem_map.mp ht
      rintro rfl
      rw [hsilent rfl] at hevent
      cases hevent
    · refine ⟨log.length, ⟨_, List.getElem?_concat_length, rfl, rfl⟩, hstate, fun t ht => ?_⟩
      simp at ht

theorem inside?_of_phase {run : Run} {deadline? : Option Nat}
    (hphase : e.phase = .running run deadline?) (address : List Nat) :
    e.inside? address = Frame.inside? ⟨e.machine, none, run⟩ address := by
  simp [inside?, frame?, hphase]

/-- **A change is recounted** by what it tells. -/
theorem Recounts.change {services : Services} {w : World}
    {leaf? : Option (Run.LeafMove × List Nat)} (h : e.Recounts log)
    (hchange : e.Change services w leaf? e') : e'.Recounts (log ++ e.tellings leaf? e') := by
  have hsound : e'.Sound fun _ _ => True := hchange.sound h.sound
  cases hchange with
  | same =>
    exact h.tell rfl [] [] (by simp) (by simp) (by simp)
      (fun _ _ hstate => .inl ⟨hstate, fun _ => rfl⟩) hsound h.numbered
  | cancelled =>
    exact h.tell rfl [] [] (by simp) (by simp) (by simp)
      (fun _ _ hstate => .inl ⟨hstate, fun _ => rfl⟩) hsound h.numbered
  | started hstart =>
    have hevents := start?_events hstart
    obtain ⟨-, started, rfl⟩ := start?_eq_some hstart
    refine h.tell rfl []
      [.executionStarted e.identity.executionId e.identity.machineName e.identity.input]
      (by rw [List.append_nil]; exact hevents) (by simp) (by simp [Event.isOfState])
      (fun address state hstate => ?_) hsound ?_
    · cases address <;> cases hstate
    · rintro root hroot
      obtain rfl := Option.some.inj hroot
      exact .of_items_eq_nil rfl trivial
  | aborted habort =>
    obtain ⟨run, deadline?, report, -, -, -, rfl⟩ := abort?_eq_some habort
    refine h.tell rfl [] [] (by simp) (by simp) (by simp) (fun address state hstate => ?_) hsound
      fun root hroot => ?_
    · cases hstate
    · cases hroot
  | expired hexpire =>
    obtain ⟨run, deadline, -, -, rfl⟩ := expire?_eq_some hexpire
    refine h.tell rfl [] [.ending (.error (.executionTimedOut _))] (by rw [List.append_nil]; rfl)
      (by simp) (by simp) (fun address state hstate => ?_) hsound fun root hroot => ?_
    · cases hstate
    · cases hroot
  | @moved _ w' move address hmoved =>
    obtain ⟨run, deadline?, s, run', hphase, hmove, -, heq⟩ := moveAt?_eq_some hmoved
    have hframe : e.frame? = some ⟨e.machine, none, run⟩ := by simp [frame?, hphase]
    have hrun : Frame.Everywhere (Frame.Sound e.machine fun _ _ => True)
        ⟨e.machine, none, run⟩ := by
      simpa only [Sound, hphase] using h.sound
    obtain ⟨told, hevents, htold, hinside⟩ :=
      Run.moveAt_inside hrun (h.numbered _ hframe) hmove
    rw [Option.or_none] at htold hinside
    have hnumbered := Frame.everywhere_numbered_moveAt hrun (h.numbered _ hframe) hmove
    rcases withRun_cases (e.inSituation s) deadline? run' with ⟨result, rfl, hend⟩ | ⟨-, hgoes⟩
    · rw [heq, hend] at hsound ⊢
      refine h.tell rfl told [.ending result] (congrArg (· ++ [_]) hevents) htold (by simp)
        (fun address state hstate => ?_) hsound fun root hroot => ?_
      · cases hstate
      · cases hroot
    · rw [heq, hgoes] at hsound ⊢
      refine h.tell rfl told [] (by rw [List.append_nil]; exact hevents) htold (by simp)
        (fun address' state hstate => ?_) hsound ?_
      · rw [inside?_of_phase hphase]
        exact hinside address' state hstate
      · rintro root hroot
        obtain rfl := Option.some.inj hroot
        exact hnumbered

end Execution

end StateFlow
