import Mathlib.Logic.Function.Basic
import StateFlow.Proofs.Execution.Foresight
import StateFlow.Proofs.Execution.Trace

/-!
# Moves follow the course of a run

Whatever moves in a run, what has been told and what the run comes to from then on make up what the
run would have come to before, by readings of which the move has taken the first
(`Run.moveAt_course`).  So what a run comes to does not depend on the order of its moves.

## Main definitions

* `Run.Foretells`: what a run comes to after a move, it would have come to before

## Main results

* `State.begin_course`, `Run.moveLeaf_course`: the parts of a move
* `Run.moveAt_course`: a move follows the course
-/

namespace StateFlow

variable {scope : Scope} {origin : Timestamp} {w w' : World}
  {reported reported' : String → List Settlement} {m : Machine} {item? : Option Nat}
  {s s' : Situation} {name : String} {input : Json} {new : Run}

/-! ## Beginning a state -/

/-- What a state comes to that is not a Map state: what its work comes to once it has begun. -/
theorem State.verdict?_eq {state : State} (hservices : scope.services.Steady)
    (hkind : state.kind ≠ .map) (s : Situation) (name : String) (input : Json)
    (course? : (index : Nat) → Machine → String → Json → Option Course) :
    state.verdict? scope s.world.origin s.world.clock s.world.named name input course? =
      (state.begin scope s name input
        (Context.ofState scope.identity name s.world.now)).2.verdict? := by
  let s₀ : Situation := ⟨.at s.world.origin s.world.clock s.world.named, false, []⟩
  have hsnd : (state.begin scope s₀ name input
      (Context.ofState scope.identity name s.world.now)).2 = (state.begin scope s name input
        (Context.ofState scope.identity name s.world.now)).2 :=
    @State.begin_snd scope s s₀ state hservices rfl rfl rfl name input _
  rw [← hsnd]
  exact State.verdict?_of_ne_map hkind scope _ _ _ name input course?

/-- A state that begins will come to what it was to come to, and the reports for the token that it
has issued are in order. -/
structure State.Foretells (state : State) (scope : Scope) (s s' : Situation) (m : Machine)
    (item? : Option Nat) (name : String) (input : Json) (reported' : String → List Settlement)
    (new : Run) : Prop where
  inOrder : Frame.Everywhere (Frame.InOrder s'.world reported') ⟨m, item?, new⟩
  course : ∀ later, ∃ (items : Nat → Readings) (next : Readings),
    (state.verdict? scope s.world.origin s.world.clock s.world.named name input
      fun index machine => (items index).course? scope s.world.origin (some index) machine).bind
        (depart? item? name (next.course? scope s.world.origin item? m)) =
    new.course? scope s.world.origin reported' item? m later

namespace State.Foretells

variable {state : State}

/-- A state that has done its work at once, or is refused. -/
theorem of_ofOutcome (hservices : scope.services.Steady) (hkind : state.kind ≠ .map)
    (outcome : Except Fault Departure)
    (h : state.begin scope s name input (Context.ofState scope.identity name s.world.now) =
      (s', .ofOutcome name outcome)) :
    state.Foretells scope s s' m item? name input reported' (.ofOutcome name outcome) := by
  refine ⟨Frame.everywhere_inOrder_ofOutcome name outcome, fun later =>
    ⟨fun _ => .nothing, later, ?_⟩⟩
  rw [verdict?_eq hservices hkind, h, Run.course?_ofOutcome, Run.verdict?_ofOutcome,
    Option.bind_some]

/-- A task that has begun. -/
theorem of_task (hservices : scope.services.Steady) {task : TaskState}
    {work : TaskWork} (horder : (Work.task work).InOrder s'.world reported')
    (hnothing : ∀ token ∈ work.token?, reported' token = [])
    (h : task.begin scope s name input (Context.ofState scope.identity name s.world.now) =
      (s', .working name input (.task work))) :
    (State.task task).Foretells scope s s' m item? name input reported'
      (.working name input (.task work)) := by
  refine ⟨Frame.everywhere_inOrder_task horder, fun later =>
    ⟨fun _ => .nothing, later.next, ?_⟩⟩
  have hreported : (work.token?.map reported').getD [] = [] := by
    cases htoken : work.token? with
    | none => rfl
    | some token => exact hnothing token htoken
  rw [verdict?_eq hservices (by rintro ⟨⟩)]
  show ((task.begin scope s name input _).2.verdict?).bind _ = _
  rw [h]
  simp only [Run.verdict?, Run.course?, Run.workVerdict?, hreported]

end State.Foretells

/-- The items of a Map state are numbered, each once; at least one of them is started, if there is
any; and what they come to does not depend on how many are. -/
theorem MapFrame.begin_items (frame : MapFrame) {limit : Nat} (hlimit : 1 ≤ limit)
    (items : List Json) :
    let numbered := (List.range items.length).zip items
    let started := frame.startItems (numbered.take limit)
    (started.map (·.1) ++ (numbered.drop limit).map (·.1)).Nodup ∧
      (started = [] → numbered.drop limit = []) ∧
      ∀ course?, frame.waitingResults course? (numbered.take limit) ++
        frame.waitingResults course? (numbered.drop limit) =
          frame.waitingResults course? numbered := by
  intro numbered started
  refine ⟨frame.nodup_numbered limit items, fun hnil => ?_, fun course? => ?_⟩
  · have htake : numbered.take limit = [] := List.map_eq_nil_iff.mp hnil
    rcases List.take_eq_nil_iff.mp htake with hzero | hnone
    · omega
    · rw [hnone, List.drop_nil]
  · rw [waitingResults, waitingResults, ← List.map_append, List.take_append_drop]
    rfl

theorem WaitState.begin_course {wait : WaitState} (hservices : scope.services.Steady)
    (h : wait.begin scope s name input = (s', new)) :
    (State.wait wait).Foretells scope s s' m item? name input reported' new := by
  have hbegin := h
  unfold begin at hbegin
  dsimp only at hbegin
  split at hbegin
  · next fault _ =>
    obtain rfl : _ = new := congrArg Prod.snd hbegin
    exact .of_ofOutcome hservices (by rintro ⟨⟩) (.error fault) h
  · next effective nanoseconds _ =>
    obtain rfl : _ = new := congrArg Prod.snd hbegin
    refine ⟨.of_items_eq_nil rfl ?_, fun later => ⟨fun _ => .nothing, later.next, ?_⟩⟩
    · rintro _ _ _ ⟨⟩
      trivial
    · rw [State.verdict?_eq hservices (by rintro ⟨⟩)]
      show ((wait.begin scope s name input).2.verdict?).bind _ = _
      rw [h]
      simp only [Run.verdict?, Run.course?, Run.workVerdict?]

theorem TaskState.begin_course {task : TaskState} (hservices : scope.services.Steady)
    (hsequenced : scope.services.Sequenced)
    (hjobs : s.world.named < s'.world.named → s.world.jobsFor (freshName s.world.named) = [])
    (h : task.begin scope s name input (Context.ofState scope.identity name s.world.now) =
      (s', new)) (reported : String → List Settlement) :
    ∃ reported' : String → List Settlement,
      (∀ token, (s.world.named < s'.world.named → token ≠ freshName s.world.named) →
        reported' token = reported token) ∧
      (State.task task).Foretells scope s s' m item? name input reported' new := by
  have hbegins := task.begins_begin hsequenced s name input
    (Context.ofState scope.identity name s.world.now)
  rw [h] at hbegins
  cases hbegins with
  | refused fault =>
    exact ⟨reported, fun _ _ => rfl, .of_ofOutcome hservices (by rintro ⟨⟩) (.error fault) h⟩
  | plain hprogress =>
    exact ⟨reported, fun _ _ => rfl, .of_task hservices nofun nofun h⟩
  | callback hprogress hnamed hticket hsame =>
    refine ⟨fun token => if token = freshName s.world.named then [] else reported token,
      fun token htoken => if_neg (htoken hnamed), .of_task hservices ?_ ?_ h⟩
    · rintro token ⟨⟩
      refine .made ?_ ?_ hprogress
      · dsimp only
        rw [if_pos rfl]
        exact hticket
      · show s'.world.jobs.filter _ = []
        rw [hsame]
        exact hjobs hnamed
    · rintro token ⟨⟩
      exact if_pos rfl

theorem MapSettings.begin_course {settings : MapSettings}
    {itemProcessor? iterator? : Option Machine}
    (h : settings.begin (processor? itemProcessor? iterator?) scope s name input
      (Context.ofState scope.identity name s.world.now) = (s', new)) :
    (State.map settings itemProcessor? iterator?).Foretells scope s s' m item? name input reported'
      new := by
  unfold begin at h
  split at h
  · next hnone =>
    obtain rfl : _ = new := congrArg Prod.snd h
    refine ⟨Frame.everywhere_inOrder_ended _, fun later => ⟨fun _ => .nothing, later, ?_⟩⟩
    simp only [State.verdict?, verdict?, hnone, Option.bind_some, depart?, Run.course?]
  · next machine hmachine =>
    split at h
    · next fault hitems =>
      obtain rfl : _ = new := congrArg Prod.snd h
      refine ⟨Frame.everywhere_inOrder_ended _, fun later => ⟨fun _ => .nothing, later, ?_⟩⟩
      simp only [State.verdict?, verdict?, hmachine, hitems, Option.bind_some, depart?, Run.course?]
    · next effective items hitems =>
      let frame : MapFrame := ⟨settings, machine, effective,
        Context.ofState scope.identity name s.world.now⟩
      let numbered := (List.range items.length).zip items
      let limit := settings.limit scope.services
      obtain rfl : _ = s' := congrArg Prod.fst h
      obtain rfl : _ = new := congrArg Prod.snd h
      obtain ⟨hindices, hwaiting, hresults⟩ :=
        frame.begin_items (show 1 ≤ limit from Nat.le_max_left _ _) items
      refine ⟨Frame.everywhere_inOrder_settle hindices ?_ name input [],
        fun later => ?_⟩
      · intro p hp
        obtain ⟨⟨index, item⟩, -, rfl⟩ := List.mem_map.mp hp
        exact Frame.everywhere_inOrder_startItem frame index item
      · obtain ⟨items', next, heq⟩ := @MapFrame.course?_settle scope s.world.origin reported' frame
          s name input item? m [] _ _ hwaiting later
        refine ⟨items', next, ?_⟩
        rw [← heq, MapFrame.activeResults_startItems, hresults]
        simp only [State.verdict?, verdict?, hmachine, hitems]
        rfl

/-- **A state that begins will come to what it was to come to.** -/
theorem State.begin_course {state : State} (hservices : scope.services.Steady)
    (hsequenced : scope.services.Sequenced)
    (hjobs : s.world.named < s'.world.named → s.world.jobsFor (freshName s.world.named) = [])
    (h : state.begin scope s name input (Context.ofState scope.identity name s.world.now) =
      (s', new)) (reported : String → List Settlement) :
    ∃ reported' : String → List Settlement,
      (∀ token, (s.world.named < s'.world.named → token ≠ freshName s.world.named) →
        reported' token = reported token) ∧
      state.Foretells scope s s' m item? name input reported' new := by
  have hsame : state.Foretells scope s s' m item? name input reported new →
      ∃ reported' : String → List Settlement,
        (∀ token, (s.world.named < s'.world.named → token ≠ freshName s.world.named) →
          reported' token = reported token) ∧
        state.Foretells scope s s' m item? name input reported' new :=
    fun hforetells => ⟨reported, fun _ _ => rfl, hforetells⟩
  have hinstant : ∀ outcome, state.kind ≠ .map → new = .ofOutcome name outcome →
      state.Foretells scope s s' m item? name input reported new := by
    rintro outcome hkind rfl
    exact .of_ofOutcome hservices hkind outcome h
  have hnew := (congrArg Prod.snd h).symm
  cases state with
  | pass p => exact hsame (hinstant _ (by rintro ⟨⟩) hnew)
  | choice c => exact hsame (hinstant _ (by rintro ⟨⟩) hnew)
  | fail f => exact hsame (hinstant (f.outcome name) (by rintro ⟨⟩) hnew)
  | succeed e => exact hsame (hinstant _ (by rintro ⟨⟩) hnew)
  | parallel p => exact hsame (hinstant (.error _) (by rintro ⟨⟩) hnew)
  | wait wait => exact hsame (WaitState.begin_course hservices h)
  | task task => exact TaskState.begin_course hservices hsequenced hjobs h reported
  | map settings itemProcessor? iterator? => exact hsame (MapSettings.begin_course h)

/-! ## Moves of a leaf -/

/-- A move of a run follows its course: it stays in order, and what it comes to after it has told
some events at its own level is what it would have come to before, by readings of which the move has
taken the first. -/
structure Run.Follows (scope : Scope) (m : Machine) (item? : Option Nat) (s s' : Situation)
    (reported reported' : String → List Settlement) (run new : Run) (told : List Event) :
    Prop where
  inOrder : Frame.Everywhere (Frame.InOrder s'.world reported') ⟨m, item?, new⟩
  course : ∀ later, ∃ readings,
    run.course? scope s.world.origin reported item? m readings =
      (new.course? scope s.world.origin reported' item? m later).map (.after told)

namespace Run

variable {run : Run}

theorem Enters.course (hservices : scope.services.Steady)
    (hsequenced : scope.services.Sequenced) (hactive : s'.cancelled = false)
    (hjobs : s.world.named < s'.world.named → s.world.jobsFor (freshName s.world.named) = [])
    (h : Enters scope m item? s name input s' new) (reported : String → List Settlement) :
    ∃ reported' told, s'.events = s.events ++ told ∧
      (∀ token, (s.world.named < s'.world.named → token ≠ freshName s.world.named) →
        reported' token = reported token) ∧
      Follows scope m item? s s' reported reported' (.entering name input) new told := by
  cases h with
  | cancelled hcancelled =>
    rw [hactive] at hcancelled
    cases hcancelled
  | unknown _ hnone =>
    refine ⟨reported, [], by simp, fun _ _ => rfl, Frame.everywhere_inOrder_ended _, fun later =>
      ⟨.entry 0 0 (fun _ => .nothing) .nothing, ?_⟩⟩
    simp only [course?, Readings.course?, hnone, Option.map_some, Course.after, List.nil_append]
  | @refused state _ hs hkind =>
    refine ⟨reported, [], by simp, fun _ _ => rfl, Frame.everywhere_inOrder_ended _, fun later =>
      ⟨.entry 0 0 (fun _ => .nothing) .nothing, ?_⟩⟩
    have hcheck : scope.services.checkKind state.kind = .error (Services.kindFault state.kind) :=
      if_neg hkind
    simp only [course?, Readings.course?, hs, hcheck, Option.map_some, Course.after,
      List.nil_append]
  | @begun state s' new _ hs hkind hbegin =>
    let entered := Event.stateEntered name state.kind input item?
    obtain ⟨reported', hreported, hforetells⟩ :=
      @State.begin_course scope m item? (s.emit entered) s' name input new state hservices
        hsequenced hjobs hbegin reported
    have hevents : s'.events = s.events ++ [entered] := by
      have := state.begin_events scope (s.emit entered) name input
        (Context.ofState scope.identity name s.world.now)
      rw [hbegin] at this
      exact this
    refine ⟨reported', [entered], hevents, hreported, hforetells.inOrder, fun later => ?_⟩
    obtain ⟨items, next, heq⟩ := hforetells.course later
    refine ⟨.entry s.world.clock s.world.named items next, ?_⟩
    have hcheck : scope.services.checkKind state.kind = .ok () := if_pos hkind
    simp only [course?, Readings.course?, hs, hcheck]
    exact congrArg (Option.map (Course.after [entered])) heq

theorem Leaves.course {departure : Departure} (hactive : s'.cancelled = false)
    (h : Leaves item? s name departure s' new) (reported : String → List Settlement) :
    ∃ told, s'.events = s.events ++ told ∧
      Follows scope m item? s s' reported reported (.leaving name departure) new told := by
  cases h with
  | cancelled hcancelled =>
    rw [hactive] at hcancelled
    cases hcancelled
  | next _ hnext =>
    refine ⟨[_], rfl, .of_items_eq_nil rfl nofun, fun later => ⟨later, ?_⟩⟩
    simp only [course?, depart?, hnext]
  | last _ hlast =>
    refine ⟨[_], rfl, Frame.everywhere_inOrder_ended _, fun later => ⟨later, ?_⟩⟩
    simp only [course?, depart?, hlast]
    rfl

theorem follows_of_going {work : TaskWork} {progress : Progress}
    (horder : Frame.InOrder s.world reported ⟨m, item?, .working name input (.task work)⟩)
    (hown : work.progress.ReportsFor work.token?) (hactive : s'.cancelled = false)
    (h : work.Advances name s s' (.going progress)) : ∃ reported' : String → List Settlement,
      (∀ token, work.token? ≠ some token → reported' token = reported token) ∧
      Follows scope m item? s s' reported reported' (.working name input (.task work))
        (.working name input (.task { work with progress })) [] := by
  have hwork := horder name input (.task work) rfl
  obtain ⟨made, hnone, hmade, hverdict⟩ := h.verdict? hown hwork.awaits hactive
  let reported' := fun token => if work.token? = some token then made else reported token
  have hreported' : (work.token?.map reported').getD [] = made := by
    cases htoken : work.token? with
    | none =>
      rw [hnone htoken, htoken]
      rfl
    | some token =>
      show (if work.token? = some token then made else reported token) = made
      rw [if_pos htoken]
  refine ⟨reported', fun token hother => if_neg hother,
    Frame.everywhere_inOrder_task fun token htoken => ?_, fun later => ⟨later, ?_⟩⟩
  · show s'.world.Awaits (if work.token? = some token then made else reported token) token _
    rw [if_pos (Option.mem_def.mp htoken)]
    exact hmade token htoken
  · simp only [course?, workVerdict?, TaskWork.verdict?]
    rw [hreported', hverdict, Course.map_after_nil]

theorem follows_of_done {work : TaskWork} {result : Except Fault Json}
    (horder : Frame.InOrder s.world reported ⟨m, item?, .working name input (.task work)⟩)
    (hown : work.progress.ReportsFor work.token?) (hactive : s'.cancelled = false)
    (h : work.Advances name s s' (.done result)) :
    Follows scope m item? s (s'.release work.token?.toList) reported reported
      (.working name input (.task work)) (.ofOutcome name (result.bind (work.task.outcome input)))
      [] := by
  have hwork := horder name input (.task work) rfl
  have hverdict : work.progress.verdict? name work.token? ((work.token?.map reported).getD []) =
      some result := h.verdict? hown hwork.awaits hactive
  refine ⟨Frame.everywhere_inOrder_ofOutcome _ _, fun later =>
    ⟨.entry 0 0 (fun _ => .nothing) later, ?_⟩⟩
  rw [course?_ofOutcome, Course.map_after_nil]
  simp only [course?, workVerdict?, TaskWork.verdict?, hverdict, Option.map_some,
    Option.bind_some, Readings.next_entry]

/-- **A move of a leaf follows its course**, and concerns the reports for its own tokens, or for one
that has just been issued. -/
theorem moveLeaf_course {move : LeafMove} (hservices : scope.services.Steady)
    (hsequenced : scope.services.Sequenced)
    (horder : Frame.InOrder s.world reported ⟨m, item?, run⟩)
    (hown : Frame.ReportsOwn ⟨m, item?, run⟩) (hactive : s'.cancelled = false)
    (hjobs : s.world.named < s'.world.named → s.world.jobsFor (freshName s.world.named) = [])
    (htime : move ≠ .expire) (hmove : moveLeaf scope move m item? s run = some (s', new)) :
    ∃ reported' told, s'.events = s.events ++ told ∧
      (∀ token, (s.world.named < s'.world.named → token ≠ freshName s.world.named) →
        token ∉ run.tokens → reported' token = reported token) ∧
      Follows scope m item? s s' reported reported' run new told := by
  cases moves_of_moveLeaf hmove with
  | entering h =>
    obtain ⟨reported', told, hevents, hreported, hfollows⟩ :=
      h.course hservices hsequenced hactive hjobs reported
    exact ⟨reported', told, hevents, fun token hfresh _ => hreported token hfresh, hfollows⟩
  | leaving h =>
    obtain ⟨told, hevents, hfollows⟩ := h.course hactive reported
    exact ⟨reported, told, hevents, fun _ _ _ => rfl, hfollows⟩
  | @going name input work s' progress h =>
    obtain ⟨reported', hreported, hfollows⟩ := @follows_of_going scope reported m item? s s' name
      input work progress horder hown hactive h
    refine ⟨reported', [], by rw [h.keeps.events, List.append_nil], fun token _ htoken => ?_,
      hfollows⟩
    apply hreported
    intro heq
    apply htoken
    simp [tokens, workTokens, heq]
  | @done name input work s' result h =>
    refine ⟨reported, [], ?_, fun _ _ _ => rfl, follows_of_done horder hown hactive h⟩
    show s'.events = s.events ++ []
    rw [h.keeps.events, List.append_nil]
  | timedOut _ hexpire => exact (htime hexpire).elim
  | heeded hcancelled =>
    have : s.cancelled = false := hactive
    rw [this] at hcancelled
    cases hcancelled
  | slept _ =>
    refine ⟨reported, [], by simp, fun _ _ _ => rfl, Frame.everywhere_inOrder_ofOutcome _ _,
      fun later => ⟨.entry 0 0 (fun _ => .nothing) later, ?_⟩⟩
    rw [course?_ofOutcome, Course.map_after_nil]
    simp only [course?, workVerdict?, Option.bind_some, Readings.next_entry]
  | woken hcancelled =>
    rw [hactive] at hcancelled
    cases hcancelled

/-! ## Moves in a run -/

/-- Items come to the same where one of them comes to what another run was to come to. -/
theorem activeResults_setActive {machine : Machine} {items items' : Nat → Readings}
    {index : Nat} {old new : Run} {active : List (Nat × Run)}
    (hold : active? index active = some old)
    (hindices : (active.map (·.1)).Nodup) (htokens : (activeTokens active).Nodup)
    (hnew : (old.course? scope origin reported (some index) machine (items' index)).map (·.2) =
      (new.course? scope origin reported' (some index) machine (items index)).map (·.2))
    (hitems : ∀ i ≠ index, items' i = items i)
    (hreported : ∀ token ∈ activeTokens active, token ∉ old.tokens →
      reported' token = reported token) :
    activeResults scope origin reported machine items' active =
      activeResults scope origin reported' machine items (setActive index new active) := by
  induction active with
  | nil => cases hold
  | cons p active ih =>
    obtain ⟨i, run⟩ := p
    obtain ⟨hi, hindices⟩ := List.nodup_cons.mp hindices
    obtain ⟨-, hrest, hdisjoint⟩ := List.nodup_append.mp htokens
    rw [active?] at hold
    by_cases heq : i = index
    · subst heq
      rw [if_pos rfl] at hold
      obtain rfl : run = old := Option.some.inj hold
      have hothers : activeResults scope origin reported machine items' active =
          activeResults scope origin reported' machine items active := by
        refine (activeResults_congr active (fun token htoken => ?_) fun j hj => ?_).symm
        · exact hreported token (List.mem_append_right _ htoken) fun hmem =>
            hdisjoint token hmem token htoken rfl
        · exact (hitems j (ne_of_mem_of_not_mem hj hi)).symm
      simp only [setActive, if_pos, activeResults, hnew, hothers]
    · rw [if_neg heq] at hold
      have hother : run.course? scope origin reported (some i) machine (items' i) =
          run.course? scope origin reported' (some i) machine (items i) := by
        rw [hitems i heq]
        refine (course?_congr run fun token htoken => ?_).symm
        apply hreported token (List.mem_append_left _ htoken)
        intro hmem
        exact hdisjoint token htoken token (mem_activeTokens (mem_of_active? hold) hmem) rfl
      have hrest := ih hold hindices hrest fun token htoken => hreported token
        (List.mem_append_right _ htoken)
      simp only [setActive, if_neg heq, activeResults, hother, hrest]

/-- No token is held by two items. -/
theorem not_mem_tokens_of_ne {active : List (Nat × Run)} {i j : Nat} {run run' : Run}
    {token : String} (hnodup : (activeTokens active).Nodup) (h : (i, run) ∈ active)
    (h' : (j, run') ∈ active) (hne : i ≠ j) (htoken : token ∈ run.tokens) :
    token ∉ run'.tokens := by
  intro htoken'
  induction active with
  | nil => cases h
  | cons q active ih =>
    obtain ⟨-, hrest, hdisjoint⟩ := List.nodup_append.mp hnodup
    rcases List.mem_cons.mp h with rfl | hmem
    · rcases List.mem_cons.mp h' with heq | hmem'
      · exact hne (congrArg Prod.fst heq).symm
      · exact hdisjoint token htoken token (mem_activeTokens hmem' htoken') rfl
    · rcases List.mem_cons.mp h' with rfl | hmem'
      · exact hdisjoint token htoken' token (mem_activeTokens hmem htoken) rfl
      · exact ih hrest hmem hmem'

/-- The items of a Map state stay in order when one of them is replaced by a run in order and the
tokens of the others are not concerned. -/
theorem everywhere_inOrder_setActive {machine : Machine} {index : Nat} {old new : Run}
    {active : List (Nat × Run)}
    (hitems : ∀ p ∈ active,
      Frame.Everywhere (Frame.InOrder s.world reported) ⟨machine, some p.1, p.2⟩)
    (hnew : Frame.Everywhere (Frame.InOrder s'.world reported') ⟨machine, some index, new⟩)
    (hold : active? index active = some old) (hindices : (active.map (·.1)).Nodup)
    (hnodup : (activeTokens active).Nodup)
    (hothers : ∀ token ∈ activeTokens active, token ∉ old.tokens →
      reported' token = reported token ∧
        s'.world.tokens.ticket? token = s.world.tokens.ticket? token ∧
        s'.world.jobsFor token = s.world.jobsFor token) :
    ∀ p ∈ setActive index new active,
      Frame.Everywhere (Frame.InOrder s'.world reported') ⟨machine, some p.1, p.2⟩ := by
  intro p hp
  rcases mem_setActive_of_nodup hindices hp with rfl | ⟨hmem, hne⟩
  · exact hnew
  · refine (hitems p hmem).inOrder_of_awaits fun token htoken progress hawaits => ?_
    obtain ⟨heq, hticket, hjobs⟩ := hothers token (mem_activeTokens hmem htoken)
      (not_mem_tokens_of_ne hnodup hmem (mem_of_active? hold) hne htoken)
    rw [heq]
    exact hawaits.congr hticket hjobs

/-- Where one item has moved, all items come to the same by readings of which the item takes those
that its run took before the move. -/
theorem exists_readings_setActive {frame : MapFrame} {items : Nat → Readings} {first : Readings}
    {index : Nat} {old new : Run} {active : List (Nat × Run)} {waiting : List (Nat × Json)}
    (hold : active? index active = some old)
    (hindices : (active.map (·.1) ++ waiting.map (·.1)).Nodup)
    (hnodup : (activeTokens active).Nodup)
    (hnew : (old.course? scope origin reported (some index) frame.machine first).map (·.2) =
      (new.course? scope origin reported' (some index) frame.machine (items index)).map (·.2))
    (hreported : ∀ token ∈ activeTokens active, token ∉ old.tokens →
      reported' token = reported token) :
    ∃ items' : Nat → Readings,
      activeResults scope origin reported frame.machine items' active =
        activeResults scope origin reported' frame.machine items (setActive index new active) ∧
      frame.waitingResults (fun i => (items' i).course? scope origin (some i)) waiting =
        frame.waitingResults (fun i => (items i).course? scope origin (some i)) waiting := by
  obtain ⟨hactive, -, hdisjoint⟩ := List.nodup_append.mp hindices
  have hitems : ∀ i ≠ index, Function.update items index first i = items i :=
    fun i hi => Function.update_of_ne hi _ _
  refine ⟨Function.update items index first, ?_, ?_⟩
  · refine activeResults_setActive hold hactive hnodup ?_ hitems hreported
    rw [Function.update_self, hnew]
  -- the item that has moved is not among those that wait
  · apply frame.waitingResults_congr
    intro p hp
    rw [hitems p.1]
    rintro rfl
    exact hdisjoint p.1 (List.mem_map_of_mem (mem_of_active? hold)) p.1 (List.mem_map_of_mem hp) rfl

/-- **A Map state follows its course when one of its items does**, by a move that serves it. -/
theorem Follows.settle {frame : MapFrame} {delivered : List Json} {active : List (Nat × Run)}
    {waiting : List (Nat × Json)} {index : Nat} {old : Run} {told : List Event}
    (h : Follows scope frame.machine (some index) s s' reported reported' old new told)
    (hold : active? index active = some old)
    (hserves : s.world.Serves s'.world old.tokens new.tokens)
    (hreported : ∀ token, (s.world.named < s'.world.named → token ≠ freshName s.world.named) →
      token ∉ old.tokens → reported' token = reported token)
    (horder : Frame.Everywhere (Frame.InOrder s.world reported)
      ⟨m, item?, .working name input (.map frame delivered active waiting)⟩)
    (hnodup : (activeTokens active).Nodup)
    (hfresh : s.world.named < s'.world.named → freshName s.world.named ∉ activeTokens active) :
    Follows scope m item? s
      (frame.settle s' name input delivered (setActive index new active) waiting).1
      reported reported' (.working name input (.map frame delivered active waiting))
      (frame.settle s' name input delivered (setActive index new active) waiting).2 [] := by
  obtain ⟨hindices, hwaiting⟩ := horder.here name input _ rfl
  have hothers : ∀ token ∈ activeTokens active, token ∉ old.tokens →
      reported' token = reported token ∧
        s'.world.tokens.ticket? token = s.world.tokens.ticket? token ∧
        s'.world.jobsFor token = s.world.jobsFor token := by
    intro token htoken hnot
    have hne : s.world.named < s'.world.named → token ≠ freshName s.world.named := by
      rintro hlt rfl
      exact hfresh hlt htoken
    exact ⟨hreported token hne hnot, hserves.ticket?_of_not_mem hnot hne,
      hserves.jobsFor_of_not_mem hnot⟩
  have hset := map_fst_setActive index new active
  refine ⟨Frame.everywhere_inOrder_settle (by rwa [hset]) ?_ name input delivered,
    fun later => ?_⟩
  · exact everywhere_inOrder_setActive (fun p hp => horder.inside _ (List.mem_map_of_mem hp))
      h.inOrder hold (List.nodup_append.mp hindices).1 hnodup hothers
  · have hwaiting' : setActive index new active = [] → waiting = [] := by
      intro hnil
      rw [hnil] at hset
      exact hwaiting (List.map_eq_nil_iff.mp hset.symm)
    obtain ⟨items, next, heq⟩ := @MapFrame.course?_settle scope s.world.origin reported' frame s'
      name input item? m delivered _ waiting hwaiting' later
    obtain ⟨first, hfirst⟩ := h.course (items index)
    have hcourse : (old.course? scope s.world.origin reported (some index) frame.machine first).map
        (·.2) = (new.course? scope s.world.origin reported' (some index) frame.machine
          (items index)).map (·.2) := by
      rw [hfirst, Option.map_map]
      rfl
    obtain ⟨items', hresults, hunstarted⟩ := exists_readings_setActive hold hindices hnodup hcourse
      fun token htoken hnot => (hothers token htoken hnot).1
    refine ⟨.entry 0 0 items' next, ?_⟩
    rw [← heq, Course.map_after_nil]
    simp only [course?, workVerdict?, Readings.items_entry, Readings.next_entry, hresults,
      hunstarted]

/-- **A move in a run follows its course.**  What is told of it at the level of the run, it tells if
it is a move of the run itself. -/
theorem moveAt_course {move : LeafMove} {address : List Nat} (hservices : scope.services.Steady)
    (hsequenced : scope.services.Sequenced)
    (horder : Frame.Everywhere (Frame.InOrder s.world reported) ⟨m, item?, run⟩)
    (hown : Frame.Everywhere Frame.ReportsOwn ⟨m, item?, run⟩) (hnodup : run.tokens.Nodup)
    (hfresh : s.world.named < s'.world.named → freshName s.world.named ∉ run.tokens)
    (hactive : s'.cancelled = false)
    (hjobs : s.world.named < s'.world.named → s.world.jobsFor (freshName s.world.named) = [])
    (htime : move ≠ .expire) (hmove : moveAt scope move m item? s address run = some (s', new)) :
    ∃ reported' told, (address = [] → s'.events = s.events ++ told) ∧ (address ≠ [] → told = []) ∧
      (∀ token, (s.world.named < s'.world.named → token ≠ freshName s.world.named) →
        token ∉ run.tokens → reported' token = reported token) ∧
      Follows scope m item? s s' reported reported' run new told := by
  induction address generalizing m item? run s' new with
  | nil =>
    obtain ⟨reported', told, hevents, hreported, hfollows⟩ :=
      moveLeaf_course hservices hsequenced horder.here hown.here hactive hjobs htime hmove
    exact ⟨reported', told, fun _ => hevents, fun hne => (hne rfl).elim, hreported, hfollows⟩
  | cons index address ih =>
    obtain ⟨name, input, frame, delivered, active, waiting, old, s₁, new₁, rfl, hold, hnew, hs⟩ :=
      moveAt_cons hmove
    obtain ⟨dropped, hfst⟩ := frame.settle_fst s₁ name input delivered
      (setActive index new₁ active) waiting
    have hs' : s' = s₁.release dropped := by
      rw [← hfst, hs]
    have hmem := mem_of_active? hold
    have hown' : Frame.Everywhere Frame.ReportsOwn ⟨frame.machine, some index, old⟩ :=
      hown.inside _ (List.mem_map_of_mem hmem)
    have hrun : (working name input (.map frame delivered active waiting)).tokens =
        activeTokens active := by
      simp only [tokens, workTokens]
    rw [hrun] at hnodup hfresh ⊢
    obtain ⟨before, after, heq, -⟩ := exists_activeTokens_eq hold
    have hnodup' : old.tokens.Nodup := by
      rw [heq] at hnodup
      exact (List.nodup_append.mp (List.nodup_append.mp hnodup).1).2.1
    subst hs'
    obtain ⟨reported', told, -, -, hreported, hfollows⟩ := @ih frame.machine (some index) s₁ new₁
      old (horder.inside _ (List.mem_map_of_mem hmem)) hown' hnodup'
      (fun hlt htoken => hfresh hlt (mem_activeTokens hmem htoken)) hactive hjobs hnew
    have hserves := @moveAt_serves scope ⟨frame.machine, some index, old⟩ hown' move s s₁ address
      new₁ hnew
    have hsettled := hfollows.settle hold hserves hreported horder hnodup hfresh
    rw [hs] at hsettled
    exact ⟨reported', [], nofun, fun _ => rfl, fun token hne hnot => hreported token hne
      fun htoken => hnot (mem_activeTokens hmem htoken), hsettled⟩

end Run

end StateFlow
