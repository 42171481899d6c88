import StateFlow.Proofs.Execution.Ceasing
import StateFlow.Proofs.Execution.Invocations
import StateFlow.Proofs.Execution.Provenance

/-!
# States that are not entered again

A run that has entered a state of a level goes on to states that follow it.  Where the level has no
cycle, it does not come back: it is past the entry of the state for good.  The same holds of the
runs of items.  An item is past a state until its Map state is done with it, and the run that holds
the Map state has entered this, so it does not come back to it and starts no such item again.

So to be past the entry of a state at the end of a path (`Frame.Past`) is kept by every move, and
who is past it does not stand before it.

## Main definitions

* `Run.Goes`: where a move of a run leads to in its level
* `Run.Beyond`: a run has entered a state of its level, and stands there or at what follows
* `Frame.Past`: a frame is past the entry of a state at the end of a path

## Main results

* `Run.goes_of_moveAt`: a move stays at a state, or leads from a state to one that follows it
* `Frame.LeadsTo.past`: who enters a state is past its entry afterwards
* `Frame.Past.moveAt`: a move keeps a frame past the entry of a state
* `Frame.Past.not_entering`: who is past the entry of a state does not stand before it
-/

namespace StateFlow

/-! ## Ways through a level -/

namespace Run

/-- A run is inside a state, or has ended there. -/
def StaysAt (name : String) (run : Run) : Prop := run.inside? = some name ∨ run.result?.isSome

/-- Where a move of a run leads to: into the state that it was about to enter, on with the state
that it is inside of, or from a state that it leaves to one that follows. -/
inductive Goes (m : Machine) : Run → Run → Prop
  | into {name : String} {payload : Json} {new : Run} (h : new.StaysAt name) :
      Goes m (.entering name payload) new
  | on {name : String} {run new : Run} (hinside : run.inside? = some name)
      (h : new.StaysAt name) : Goes m run new
  | next {name next : String} {departure : Departure} {payload : Json}
      (h : m.Follows name next) : Goes m (.leaving name departure) (.entering next payload)

variable {scope : Scope} {move : LeafMove} {root m : Machine} {R : Machine → Fault → Prop}
  {item? : Option Nat} {s s' : Situation} {run new : Run} {name : String}

theorem staysAt_ended (name : String) (result : Except Fault Json) :
    StaysAt name (.ended result) := .inr rfl

/-- Who stands inside a state stays at it. -/
theorem StandsAt.staysAt {identity : Identity} {input : Json}
    (h : run.StandsAt m identity (.inside name input)) : run.StaysAt name := by
  cases hinside : run.inside? with
  | some current => exact .inl (hinside.trans (congrArg some (h.inside?_eq hinside).symm))
  | none =>
    cases run with
    | entering name' payload => cases h
    | working name' input' work => cases hinside
    | leaving name' departure => cases hinside
    | ended result => exact staysAt_ended name result

theorem staysAt_ofOutcome (name : String) (x : Except Fault Departure) :
    StaysAt name (.ofOutcome name x) := by
  cases x with
  | ok departure => exact .inl rfl
  | error fault => exact staysAt_ended name _

theorem goes_of_moveLeaf (hsound : Frame.Sound root R ⟨m, item?, run⟩)
    (h : moveLeaf scope move m item? s run = some (s', new)) : Goes m run new := by
  cases moves_of_moveLeaf h with
  | entering h =>
    cases h with
    | cancelled _ => exact .into (staysAt_ended _ _)
    | unknown _ _ => exact .into (staysAt_ended _ _)
    | refused _ _ _ => exact .into (staysAt_ended _ _)
    | begun _ hs _ hbegin =>
      obtain rfl : _ = new := congrArg Prod.snd hbegin
      exact .into (State.begin_standsAt hs _ _ _ _).staysAt
  | leaving h =>
    cases h with
    | cancelled _ => exact .on rfl (staysAt_ended _ _)
    | next _ hsuccessor =>
      obtain ⟨state, hs, hleads⟩ := hsound.run
      exact .next ⟨state, hs, hleads _ hsuccessor⟩
    | last _ _ => exact .on rfl (staysAt_ended _ _)
  | going _ => exact .on rfl (.inl rfl)
  | done _ => exact .on rfl (staysAt_ofOutcome _ _)
  | timedOut _ _ => exact .on rfl (staysAt_ended _ _)
  | heeded _ => exact .on rfl (staysAt_ended _ _)
  | slept _ => exact .on rfl (staysAt_ofOutcome _ _)
  | woken _ => exact .on rfl (staysAt_ended _ _)

/-- A Map state that is settled is still the state that the run is at. -/
theorem staysAt_settle (frame : MapFrame) (s : Situation) (name : String) (input : Json)
    (delivered : List Json) (active : List (Nat × Run)) (waiting : List (Nat × Json)) :
    (frame.settle s name input delivered active waiting).2.StaysAt name := by
  unfold MapFrame.settle
  split
  · exact .inl rfl
  · exact staysAt_ofOutcome name _
  · exact staysAt_ended name _

/-- **A move stays at a state, or leads from a state to one that follows it.** -/
theorem goes_of_moveAt {address : List Nat} (hsound : Frame.Sound root R ⟨m, item?, run⟩)
    (h : moveAt scope move m item? s address run = some (s', new)) : Goes m run new := by
  cases address with
  | nil => exact goes_of_moveLeaf hsound h
  | cons index address =>
    obtain ⟨name, input, frame, delivered, active, waiting, old, s₁, inner, rfl, -, -, hs⟩ :=
      moveAt_cons h
    obtain rfl : _ = new := congrArg Prod.snd hs
    exact .on rfl (staysAt_settle _ _ _ _ _ _ _)

/-- A run of a level has entered a state, and stands there or at what follows, or has ended. -/
def Beyond (m : Machine) (name : String) : Run → Prop
  | entering next _ => Relation.TransGen m.Follows name next
  | working current _ _ | leaving current _ => Relation.ReflTransGen m.Follows name current
  | ended _ => True

theorem StaysAt.beyond {current : String} (h : run.StaysAt current)
    (hreach : Relation.ReflTransGen m.Follows name current) : run.Beyond m name := by
  rcases h with hinside | hended
  · cases run with
    | entering next payload => cases hinside
    | working state input work => exact Option.some.inj hinside ▸ hreach
    | leaving state departure => exact Option.some.inj hinside ▸ hreach
    | ended result => trivial
  · cases run with
    | ended result => trivial
    | entering next payload => cases hended
    | working state input work => cases hended
    | leaving state departure => cases hended

theorem Beyond.of_inside {current : String} (h : run.Beyond m name)
    (hinside : run.inside? = some current) : Relation.ReflTransGen m.Follows name current := by
  cases run with
  | entering next payload => cases hinside
  | working state input work => exact Option.some.inj hinside ▸ h
  | leaving state departure => exact Option.some.inj hinside ▸ h
  | ended result => cases hinside

/-- A move leads on. -/
theorem Beyond.goes (h : run.Beyond m name) (hgoes : Goes m run new) : new.Beyond m name := by
  cases hgoes with
  | into hstays => exact hstays.beyond (Relation.TransGen.to_reflTransGen h)
  | on hinside hstays => exact hstays.beyond (h.of_inside hinside)
  | next hfollows => exact Relation.TransGen.tail' h hfollows

end Run

/-! ## Past the entry of a state -/

/-- A Map state that goes on after it has been settled has handed over. -/
theorem MapFrame.handOver_of_settle {frame frame' : MapFrame} {name name' : String}
    {input input' : Json} {delivered delivered' : List Json} {active active' : List (Nat × Run)}
    {waiting waiting' : List (Nat × Json)}
    (h : (frame.settle s name input delivered active waiting).2 =
      .working name' input' (.map frame' delivered' active' waiting')) :
    name = name' ∧ frame = frame' ∧
      frame.handOver delivered active waiting = .going delivered' active' waiting' := by
  unfold MapFrame.settle at h
  split at h
  · next heq =>
    cases h
    exact ⟨rfl, rfl, heq⟩
  · next outputs _ =>
    cases houtcome : frame.settings.outcome input outputs with
    | ok departure =>
      rw [houtcome] at h
      cases h
    | error fault =>
      rw [houtcome] at h
      cases h
  · cases h

namespace Frame

/-- A frame is past the entry of a state at the end of a path: of a state of its own level, or of an
item that its Map state has started and does not start again. -/
def Past : (path : List (String × Nat)) → (state : String) → Frame → Prop
  | [], state, f => f.run.Beyond f.machine state
  | (name, index) :: path, state, f =>
    f.run.Beyond f.machine name ∧ ∀ input frame delivered active waiting,
      f.run = .working name input (.map frame delivered active waiting) →
      (∀ p ∈ waiting, p.1 ≠ index) ∧
        ∀ p ∈ active, p.1 = index → Past path state ⟨frame.machine, some p.1, p.2⟩

variable {root m : Machine} {R : Machine → Fault → Prop} {f g : Frame} {item? : Option Nat}
  {path : List (String × Nat)} {state : String} {scope : Scope} {move : Run.LeafMove}
  {s s' : Situation} {address : List Nat} {run' : Run}

/-- A Map state that is settled is past what its items are past of, if it starts none of them. -/
theorem past_settle {frame : MapFrame} {name : String} {index : Nat} {input : Json}
    {delivered : List Json} {active : List (Nat × Run)} {waiting : List (Nat × Json)}
    {name' : String} (hbeyond : Relation.ReflTransGen m.Follows name name')
    (hwaiting : name' = name → ∀ p ∈ waiting, p.1 ≠ index)
    (hactive : name' = name → ∀ p ∈ active, p.1 = index →
      Past path state ⟨frame.machine, some p.1, p.2⟩) (s : Situation) :
    Past ((name, index) :: path) state
      ⟨m, item?, (frame.settle s name' input delivered active waiting).2⟩ := by
  refine ⟨(Run.staysAt_settle frame s name' input delivered active waiting).beyond hbeyond, ?_⟩
  intro input' frame' delivered' active' waiting' hsettled
  obtain ⟨rfl, rfl, heq⟩ := MapFrame.handOver_of_settle hsettled
  refine ⟨fun p hp => hwaiting rfl p (MapFrame.handOver_waiting heq hp), ?_⟩
  have hall := @frame.handOver_all
    (fun p => p.1 = index → Past path state ⟨frame.machine, some p.1, p.2⟩) delivered _ _
    (hactive rfl) fun p hp hindex => (hwaiting rfl p hp hindex).elim
  rw [heq] at hall
  exact hall

/-- **Who enters a state is past its entry afterwards.** -/
theorem LeadsTo.past (hpath : f.LeadsTo path g) {payload : Json}
    (hg : g.run = .entering state payload) (hsound : f.Everywhere (Sound root R))
    (hnumbered : f.Everywhere Numbered)
    (h : Run.moveAt scope move f.machine f.item? s (addressOf path) f.run = some (s', run')) :
    Past path state { f with run := run' } := by
  induction hpath generalizing s' run' with
  | @here f =>
    have hgoes := Run.goes_of_moveAt hsound.here h
    rw [hg] at hgoes
    cases hgoes with
    | into hstays => exact hstays.beyond .refl
    | on hinside _ => cases hinside
  | @item m item? name input frame delivered active waiting index run path g hactive _ ih =>
    obtain ⟨_, _, _, _, _, _, old, s₁, new, heq, hold, hnew, hs⟩ := Run.moveAt_cons h
    cases heq
    obtain rfl : run = old := Option.some.inj (hactive.symm.trans hold)
    obtain rfl : _ = run' := congrArg Prod.snd hs
    have hmem := Run.mem_of_active? hactive
    have hindices : (active.map (·.1) ++ waiting.map (·.1)).Nodup := hnumbered.here
    obtain ⟨hnodup, -, hdisjoint⟩ := List.nodup_append.mp hindices
    refine past_settle .refl (fun _ p hp hindex => ?_) (fun _ p hp hindex => ?_) s₁
    -- an item in progress does not wait, and there is only one of its index
    · exact hdisjoint index (List.mem_map_of_mem hmem) p.1 (List.mem_map_of_mem hp) hindex.symm
    · rcases Run.mem_setActive_of_nodup hnodup hp with rfl | ⟨-, hne⟩
      · exact ih hg (hsound.inside _ (List.mem_map_of_mem hmem))
          (hnumbered.inside _ (List.mem_map_of_mem hmem)) hnew
      · exact (hne hindex).elim

/-- **A move keeps a frame past the entry of a state**, if no level has a cycle. -/
theorem Past.moveAt (hpast : f.Past path state) (hacyclic : root.Acyclic)
    (hsound : f.Everywhere (Sound root R))
    (h : Run.moveAt scope move f.machine f.item? s address f.run = some (s', run')) :
    Past path state { f with run := run' } := by
  induction path generalizing f address s' run' with
  | nil => exact Run.Beyond.goes hpast (Run.goes_of_moveAt hsound.here h)
  | cons step path ih =>
    obtain ⟨name, index⟩ := step
    obtain ⟨hbeyond, hitems⟩ := hpast
    cases address with
    | nil =>
      refine ⟨hbeyond.goes (Run.goes_of_moveAt hsound.here h), ?_⟩
      intro input frame delivered active waiting hrun'
      obtain rfl : run' = _ := hrun'
      rcases Run.moveLeaf_cases (hsound.here.fits h) h with
        hnew | ⟨name', payload, hrun, _, _, _, _, -, -, -, hsettle⟩
      · exact hnew.elim
      · obtain ⟨rfl, -, -⟩ := MapFrame.handOver_of_settle (congrArg Prod.snd hsettle)
        rw [hrun] at hbeyond
        exact (hacyclic _ hsound.here.level _ hbeyond).elim
    | cons i address =>
      obtain ⟨m, item?, run⟩ := f
      obtain ⟨name', input, frame, delivered, active, waiting, old, s₁, new, rfl, hold, hnew, hs⟩ :=
        Run.moveAt_cons h
      obtain rfl : _ = run' := congrArg Prod.snd hs
      have hmem := Run.mem_of_active? hold
      refine past_settle hbeyond (fun hname => ?_) (fun hname p hp hindex => ?_) s₁
      · subst hname
        exact (hitems _ _ _ _ _ rfl).1
      · subst hname
        have hpast := (hitems _ _ _ _ _ rfl).2
        rcases Run.mem_setActive hp with hp | rfl
        · exact hpast p hp hindex
        · exact ih (hpast _ hmem hindex) (hsound.inside _ (List.mem_map_of_mem hmem)) hnew

/-- **Who is past the entry of a state does not stand before it**, if no level has a cycle. -/
theorem Past.not_entering (hpast : f.Past path state) (hacyclic : root.Acyclic)
    (hsound : f.Everywhere (Sound root R)) (hpath : f.LeadsTo path g) (payload : Json) :
    g.run ≠ .entering state payload := by
  induction hpath with
  | @here f =>
    intro hrun
    have hbeyond : f.run.Beyond f.machine state := hpast
    rw [hrun] at hbeyond
    exact hacyclic _ hsound.here.level _ hbeyond
  | item hactive _ ih =>
    have hmem := Run.mem_of_active? hactive
    exact ih ((hpast.2 _ _ _ _ _ rfl).2 _ hmem rfl) (hsound.inside _ (List.mem_map_of_mem hmem))

/-- A path leads to the level of its Map states. -/
theorem LeadsTo.levelAlong? (hpath : f.LeadsTo path g) (hsound : f.Everywhere (Sound root R)) :
    f.machine.levelAlong? (path.map Prod.fst) = some g.machine := by
  induction hpath with
  | here => rfl
  | item hactive _ ih =>
    obtain ⟨_, _, hs, hp⟩ := hsound.here.run
    rw [List.map_cons, Machine.levelAlong?_cons hs hp]
    exact ih (hsound.inside _ (List.mem_map_of_mem (Run.mem_of_active? hactive)))

end Frame

/-! ## Executions -/

namespace Execution

variable {e e' : Execution} {services : Services} {w : World} {path : List (String × Nat)}
  {state : String} {leaf? : Option (Run.LeafMove × List Nat)}

/-- An execution that is past the entry of a state at the end of a path, or has finished. -/
def Past (path : List (String × Nat)) (state : String) (e : Execution) : Prop :=
  match e.phase with
  | .created => False
  | .running run _ => Frame.Past path state ⟨e.machine, none, run⟩
  | .finished _ => True

theorem Past.root (h : e.Past path state) {root : Frame} (hroot : e.frame? = some root) :
    root.Past path state := by
  obtain ⟨run, deadline?, hphase, rfl⟩ := frame?_eq_some hroot
  simpa only [Past, hphase] using h

theorem past_withRun {e : Execution} {run : Run} {deadline? : Option Nat}
    (h : Frame.Past path state ⟨e.machine, none, run⟩) :
    (e.withRun deadline? run).Past path state := by
  rcases withRun_cases e deadline? run with ⟨result, -, heq⟩ | ⟨-, heq⟩
  · rw [heq]
    trivial
  · rw [heq]
    exact h

/-- **An execution stays past the entry of a state**, if its machine has no cycles. -/
theorem Past.change (hpast : e.Past path state) (hacyclic : e.machine.Acyclic)
    (hsound : e.Sound fun _ _ => True) (h : e.Change services w leaf? e') :
    e'.Past path state := by
  cases h with
  | same => exact hpast
  | started h =>
    simp only [Past, (start?_eq_some h).1] at hpast
  | moved h =>
    obtain ⟨run, deadline?, s, run', hphase, hmove, -, rfl⟩ := moveAt?_eq_some h
    simp only [Past, Sound, hphase] at hpast hsound
    exact past_withRun (e := e.inSituation s) (hpast.moveAt hacyclic hsound hmove)
  | aborted h =>
    obtain ⟨_, _, _, -, -, -, rfl⟩ := abort?_eq_some h
    trivial
  | expired h =>
    obtain ⟨_, _, -, -, rfl⟩ := expire?_eq_some h
    trivial
  | cancelled => exact hpast

end Execution

end StateFlow
