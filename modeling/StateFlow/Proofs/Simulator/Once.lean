import Mathlib.Data.Set.Card
import StateFlow.Proofs.Execution.Once
import StateFlow.Proofs.Execution.Waiting
import StateFlow.Proofs.Machine.WellFormed
import StateFlow.Proofs.Simulator.Unending

/-!
# Executions of machines without cycles

The run of a frame, of an execution or of an item at any depth, goes round a loop: each iteration
begins with the state that the run is about to enter.  Where no level of the machine has a cycle, a
frame begins an iteration with each state of its level once at most, so the loop has no more
iterations than the level has states; and where all that an execution waits for comes in the end,
the execution ends (`Simulator.History.once_of_acyclic`).

## Main definitions

* `Simulator.History.Iterates`: at a moment, the frame at the end of a path begins an iteration
* `Simulator.History.Reports`: every token that an execution waits on is reported for some time

## Main results

* `Simulator.History.eq_of_iterates`: no state is entered twice
* `Simulator.History.encard_iterations_le`: no more iterations than states
* `Simulator.History.ends_of_acyclic`: an execution ends if all that it waits for comes
* `Simulator.History.once_of_acyclic`: all three together
-/

namespace StateFlow

namespace Simulator

namespace History

/-- At a moment, the frame at the end of a path of Map states and indices begins an iteration of its
loop: the leaf that moves is its run, which is about to enter a state. -/
def Iterates (h : History) (place : Nat) (path : List (String × Nat)) (n : Nat) (state : String) :
    Prop :=
  ∃ move e root g payload, h.request n = .move (.leaf place move (addressOf path)) ∧
    h.execution? place n = some e ∧ e.frame? = some root ∧ root.LeadsTo path g ∧
    g.run = .entering state payload

/-- Every token that the execution at a place waits on is reported for some time. -/
def Reports (h : History) (place : Nat) : Prop :=
  ∀ n e root, h.execution? place n = some e → e.frame? = some root →
    ∀ token ∈ root.run.tokens, ∃ n' ≥ n, (h.sim n').engine.world.tokens.peek token ≠ .empty

variable {h : History} {place n n' : Nat} {e : Execution} {machine l : Machine}
  {path : List (String × Nat)} {state : String}

/-! ### Once at most -/

/-- An execution that ends enters no state by that. -/
theorem not_entersState_finish (e : Execution) (result : Except Fault Json) (told : List Event) :
    ¬ EntersState told (e.finish result).events := by
  rintro ⟨name, kind, payload, item?, heq⟩
  have hlast : Event.ending result = .stateEntered name kind payload item? :=
    (List.append_singleton_inj.mp heq).2
  have hstate := congrArg Event.isOfState hlast
  rw [Event.isOfState_ending] at hstate
  cases hstate

/-- **Whatever state is entered, a frame has begun an iteration with it.** -/
theorem exists_iterates (henters : h.Enters place n) :
    ∃ path state, h.Iterates place path n state := by
  obtain ⟨e, e', he, he', hentered⟩ := henters
  obtain ⟨e₁, he₁, hchange⟩ := execution?_succ he
  obtain rfl : e' = e₁ := Option.some.inj (he'.symm.trans he₁)
  cases hleaf : (h.request n).leafAt? place with
  | none =>
    rw [hleaf] at hchange
    cases hchange with
    | same => simp [EntersState] at hentered
    | started hstart => simp [EntersState, Execution.start?_events hstart] at hentered
    | aborted habort =>
      obtain ⟨_, _, _, -, -, -, rfl⟩ := Execution.abort?_eq_some habort
      simp [EntersState] at hentered
    | expired hexpire =>
      obtain ⟨_, _, -, -, rfl⟩ := Execution.expire?_eq_some hexpire
      exact (not_entersState_finish e _ _ hentered).elim
    | cancelled => simp [EntersState] at hentered
  | some leaf =>
    obtain ⟨move, address⟩ := leaf
    rw [hleaf] at hchange
    cases hchange with
    | moved hmoved =>
      obtain ⟨run, deadline?, s, run', hphase, hmove, -, rfl⟩ := Execution.moveAt?_eq_some hmoved
      obtain ⟨leaf, s₁, new, hat, hmoveLeaf, tokens, rfl⟩ := Run.moveAt_leaf hmove
      obtain ⟨path, rfl, hpath⟩ := Frame.exists_leadsTo hat
      have hentered : EntersState e.events s₁.events := by
        rcases Execution.withRun_cases (e.inSituation (s₁.release tokens)) deadline? run' with
          ⟨result, -, heq⟩ | ⟨-, heq⟩
        · rw [heq] at hentered
          exact (not_entersState_finish _ _ _ hentered).elim
        · rw [heq] at hentered
          exact hentered
      obtain ⟨state, payload, hrun⟩ := Run.entering_of_entersState hmoveLeaf hentered
      exact ⟨path, state, move, e, _, leaf, payload, Request.leafAt?_eq_some_iff.mp hleaf, he,
        by simp [Execution.frame?, hphase], hpath, hrun⟩

/-- The frames of an execution keep to its machine, and the items in them are numbered. -/
theorem exists_recounts (he : h.execution? place 0 = some e) (hrecounts : e.Recounts []) (n : Nat) :
    ∃ e', h.execution? place n = some e' ∧ e'.machine = e.machine ∧ ∃ log, e'.Recounts log := by
  refine kept_of_le (P := fun e' => e'.machine = e.machine ∧ ∃ log, e'.Recounts log) ?_ he
    ⟨rfl, [], hrecounts⟩ (Nat.zero_le n)
  rintro e₁ e₂ services w leaf? hchange ⟨hmachine, log, hlog⟩
  exact ⟨hchange.fixed.1.trans hmachine, _, hlog.change hchange⟩

/-- After an iteration the execution is past the entry of its state. -/
theorem Iterates.past (hiterates : h.Iterates place path n state)
    (he : h.execution? place n = some e) {log : List Telling} (hrecounts : e.Recounts log) :
    ∃ e', h.execution? place (n + 1) = some e' ∧ e'.machine = e.machine ∧
      (e'.Sound fun _ _ => True) ∧ e'.Past path state := by
  obtain ⟨move, e₁, root, g, payload, hrequest, he₁, hroot, hpath, hg⟩ := hiterates
  obtain rfl : e = e₁ := Option.some.inj (he.symm.trans he₁)
  obtain ⟨e', he', hchange⟩ := execution?_succ he
  refine ⟨e', he', hchange.fixed.1, hchange.sound hrecounts.sound, ?_⟩
  have hleaf : (h.request n).leafAt? place = some (move, addressOf path) :=
    Request.leafAt?_eq_some_iff.mpr hrequest
  rw [hleaf] at hchange
  cases hchange with
  | moved hmoved =>
    obtain ⟨run, deadline?, s, run', hphase, hmove, -, rfl⟩ := Execution.moveAt?_eq_some hmoved
    obtain rfl : (⟨e.machine, none, run⟩ : Frame) = root := by
      simpa [Execution.frame?, hphase] using hroot
    exact Execution.past_withRun (e := e.inSituation s)
      (hpath.past hg (hrecounts.sound.root hroot) (hrecounts.numbered _ hroot) hmove)

/-- Who is past the entry of a state stays so, and begins no iteration with it. -/
theorem not_iterates_of_past (hacyclic : e.machine.Acyclic) (he : h.execution? place n = some e)
    (hsound : e.Sound fun _ _ => True) (hpast : e.Past path state) (hle : n ≤ n') :
    ¬ h.Iterates place path n' state := by
  obtain ⟨e', he', hmachine, hsound', hpast'⟩ := kept_of_le
    (P := fun e' => e'.machine = e.machine ∧ (e'.Sound fun _ _ => True) ∧ e'.Past path state)
    (fun _ _ _ _ _ hchange ⟨hmachine, hsound, hpast⟩ => ⟨hchange.fixed.1.trans hmachine,
      hchange.sound hsound, hpast.change (hmachine ▸ hacyclic) hsound hchange⟩)
    he ⟨rfl, hsound, hpast⟩ hle
  rintro ⟨move, e₁, root, g, payload, -, he₁, hroot, hpath, hg⟩
  obtain rfl : e' = e₁ := Option.some.inj (he'.symm.trans he₁)
  rw [← hmachine] at hacyclic
  exact (hpast'.root hroot).not_entering hacyclic (hsound'.root hroot) hpath payload hg

/-- **No frame begins two iterations with one state.** -/
theorem eq_of_iterates (he : h.execution? place 0 = some e) (hrecounts : e.Recounts [])
    (hacyclic : e.machine.Acyclic) (hiterates : h.Iterates place path n state)
    (hiterates' : h.Iterates place path n' state) : n = n' := by
  -- the later of the two would begin past the entry of its state
  have hle : ∀ {n n'}, h.Iterates place path n state → h.Iterates place path n' state →
      ¬ n < n' := by
    intro n n' hiterates hiterates' hlt
    obtain ⟨e₁, he₁, hmachine₁, log, hlog⟩ := exists_recounts he hrecounts n
    obtain ⟨e₂, he₂, hmachine₂, hsound₂, hpast⟩ := hiterates.past he₁ hlog
    rw [← hmachine₁, ← hmachine₂] at hacyclic
    exact not_iterates_of_past hacyclic he₂ hsound₂ hpast hlt hiterates'
  exact Nat.le_antisymm (Nat.le_of_not_lt (hle hiterates' hiterates))
    (Nat.le_of_not_lt (hle hiterates hiterates'))

/-- An iteration begins with a state of the level that its path leads to. -/
theorem Iterates.mem_states (hiterates : h.Iterates place path n state)
    (he : h.execution? place 0 = some e) (hrecounts : e.Recounts [])
    (hvalid : e.machine.violations = []) :
    ∃ l, e.machine.levelAlong? (path.map Prod.fst) = some l ∧ state ∈ Entries.keys l.states := by
  obtain ⟨move, e₁, root, g, payload, -, he₁, hroot, hpath, hg⟩ := hiterates
  obtain ⟨e₂, he₂, hmachine, log, hlog⟩ := exists_recounts he hrecounts n
  obtain rfl : e₁ = e₂ := Option.some.inj (he₁.symm.trans he₂)
  have hsound := hlog.sound.root hroot
  obtain ⟨run, deadline?, -, rfl⟩ := Execution.frame?_eq_some hroot
  have hlevel := hpath.levelAlong? hsound
  obtain ⟨g, item?, _⟩ := g
  subst hg
  rw [← hmachine] at hvalid ⊢
  have hframe := (hsound.of_at? hpath.at?).here
  have hmentions : g.Mentions state := hframe.run
  refine ⟨g, hlevel, (Entries.mem_keys_iff ..).mpr ?_⟩
  exact (Machine.levelValid_of_violations hvalid hframe.level).known_of_mentions hmentions

/-- **No frame begins more iterations than its level has states.** -/
theorem encard_iterations_le (he : h.execution? place 0 = some e) (hrecounts : e.Recounts [])
    (hvalid : e.machine.violations = []) (hacyclic : e.machine.Acyclic)
    (hlevel : e.machine.levelAlong? (path.map Prod.fst) = some l) :
    {n | ∃ state, h.Iterates place path n state}.encard ≤ l.states.length := by
  choose! stateOf hstateOf using
    fun n (hn : n ∈ {n | ∃ state, h.Iterates place path n state}) => hn
  have hmaps : Set.MapsTo stateOf {n | ∃ state, h.Iterates place path n state}
      ((Entries.keys l.states).toFinset : Set String) := by
    intro n hn
    obtain ⟨l', hlevel', hmem⟩ := (hstateOf n hn).mem_states he hrecounts hvalid
    obtain rfl : l = l' := Option.some.inj (hlevel.symm.trans hlevel')
    exact List.mem_toFinset.mpr hmem
  -- the state of an iteration tells which one it is
  have hinj : Set.InjOn stateOf {n | ∃ state, h.Iterates place path n state} := by
    intro n hn n' hn' heq
    exact eq_of_iterates he hrecounts hacyclic (hstateOf n hn) (heq ▸ hstateOf n' hn')
  refine (Set.encard_le_encard_of_injOn hmaps hinj).trans ?_
  rw [Set.encard_coe_eq_coe_finsetCard, Nat.cast_le]
  exact (List.toFinset_card_le _).trans (Nat.le_of_eq (List.length_map _))

/-! ### The end -/

/-- The functions of all tasks at work answer in the end, if all functions do. -/
theorem exists_answers (he : h.execution? place 0 = some e) (hanswers : e.Answers)
    (hanswer : (h.sim 0).engine.services.Answer) (n : Nat) :
    ∃ e', h.execution? place n = some e' ∧ e'.Answers := by
  induction n with
  | zero => exact ⟨e, he, hanswers⟩
  | succ n ih =>
    obtain ⟨e₁, he₁, hanswers₁⟩ := ih
    obtain ⟨e₂, he₂, hchange⟩ := execution?_succ he₁
    rw [services_eq] at hchange
    exact ⟨e₂, he₂, hanswers₁.change hanswer hchange⟩

/-- An execution does not rest while its front is ready. -/
theorem RunsAt.not_isResting {scope : Scope} {run : Run} {leaf : Frame}
    (hruns : h.RunsAt place n scope machine run)
    (hfront : Frame.Front ⟨machine, none, run⟩ path leaf)
    (hready : ∀ s : Situation, s.world = (h.sim n).engine.world → leaf.run.isReady s) :
    ¬ h.IsResting place n := by
  rintro ⟨e, run', deadline'?, he, hphase, hnil⟩
  obtain ⟨e₁, deadline?, he₁, hphase₁, rfl, -⟩ := hruns
  obtain rfl : e = e₁ := Option.some.inj (he.symm.trans he₁)
  rw [hphase] at hphase₁
  cases hphase₁
  simp only [Execution.candidates, hphase] at hnil
  exact hfront.candidates_ne_nil (hready _ rfl) [] hnil

/-- An execution of a machine without cycles that does not end rests forever from some moment on,
and its run stays what it is. -/
theorem exists_resting (he : h.execution? place 0 = some e) (hsound : e.Sound fun _ _ => True)
    (hacyclic : e.machine.Acyclic) (hpolls : h.Polls place) (hends : ¬ h.Ends place) :
    ∃ n scope run, ∀ k ≥ n, h.RunsAt place k scope e.machine run ∧ h.IsResting place k := by
  obtain ⟨n₀, w, hruns⟩ := exists_running hpolls he hends
  have hrunning : ∀ n ≥ n₀, h.IsRunning place n := fun n hn => by
    obtain ⟨e', run, he', -, hphase⟩ := hruns n hn
    exact ⟨e', run, _, he', hphase⟩
  obtain ⟨e₀, run₀, he₀, hmachine₀, hphase₀⟩ := hruns n₀ (Nat.le_refl n₀)
  have hframes : Frame.Everywhere (Frame.Sound e₀.machine fun _ _ => True)
      ⟨e₀.machine, none, run₀⟩ :=
    (sound_of_le (Nat.zero_le n₀) he hsound he₀).root (by simp [Execution.frame?, hphase₀])
  rw [hmachine₀] at hframes
  have hruns₀ : h.RunsAt place n₀ ⟨(h.sim n₀).engine.services, e₀.identity⟩ e.machine run₀ :=
    ⟨e₀, _, he₀, hphase₀, hmachine₀, rfl⟩
  have hceases : run₀.Ceases ⟨(h.sim n₀).engine.services, e₀.identity⟩ (fun _ _ => True)
      e.machine none :=
    Run.ceases_of_sound (fun l hl name => hacyclic.acc_follows hl name)
      (fun l item? name state _ hs => .inl fun next hmem => ⟨state, hs, hmem⟩) hframes
  obtain ⟨n₁, hn₁, run, hruns₁, hstill⟩ :=
    hruns₀.exists_still hrunning (fun _ _ _ _ _ => trivial) hceases
  have hrunning₁ : ∀ k ≥ n₁, h.IsRunning place k := fun k hk => hrunning k (Nat.le_trans hn₁ hk)
  refine ⟨n₁, _, run, fun k hk => ⟨hruns₁.of_still hk hrunning₁ hstill, ?_⟩⟩
  refine (hrunning₁ k hk).isResting fun hready => ?_
  obtain ⟨k', hk', hleaf | hended⟩ := hpolls.moves_or_ends hready
  · rw [hstill k' (Nat.le_trans hk hk')] at hleaf
    cases hleaf
  · exact hends ⟨k' + 1, hended⟩

/-- **An execution ends if all that it waits for comes**: where it rests, it rests no longer than it
has to wait. -/
theorem ends_of_acyclic (he : h.execution? place 0 = some e) (hcreated : e.phase = .created)
    (hacyclic : e.machine.Acyclic) (hpolls : h.Polls place)
    (hanswer : (h.sim 0).engine.services.Answer) (hreports : h.Reports place) : h.Ends place := by
  by_contra hends
  have hsound : e.Sound fun _ _ => True := by simp [Execution.Sound, hcreated]
  obtain ⟨n, scope, run, hrests⟩ := exists_resting he hsound hacyclic hpolls hends
  obtain ⟨e₁, deadline?, he₁, hphase₁, hmachine₁, -⟩ := (hrests n (Nat.le_refl n)).1
  have hroot : e₁.frame? = some ⟨e.machine, none, run⟩ := by
    simp [Execution.frame?, hphase₁, hmachine₁]
  obtain ⟨e₂, he₂, hsettled⟩ := kept_of_le (P := Execution.Settled)
    (fun _ _ _ _ _ hchange hsettled => hsettled.change hchange) he
    (by simp [Execution.Settled, hcreated]) (Nat.zero_le n)
  obtain rfl : e₁ = e₂ := Option.some.inj (he₁.symm.trans he₂)
  obtain ⟨e₂, he₂, hanswers⟩ :=
    exists_answers he (by simp [Execution.Answers, Execution.frame?, hcreated]) hanswer n
  obtain rfl : e₁ = e₂ := Option.some.inj (he₁.symm.trans he₂)
  simp only [Execution.Settled, hphase₁, hmachine₁] at hsettled
  obtain ⟨path, leaf, hfront⟩ := Frame.Front.exists_of_settled hsettled.2.1 hsettled.1
  rcases Run.isReady_or_awaits hfront.isLeaf (hfront.of_everywhere hsettled.2.1)
    (hfront.of_everywhere (hanswers _ hroot)) with ⟨time, hready⟩ | ⟨token, htoken, hready⟩
  · obtain ⟨k, hk, htime⟩ :=
      exists_late hpolls (fun k hk => ⟨k, Nat.le_refl k, (hrests k hk).2⟩) time
    exact (hrests k hk).1.not_isResting hfront
      (fun s hs => hready s (by rw [hs]; exact htime)) (hrests k hk).2
  · obtain ⟨k, hk, hreported⟩ := hreports n e₁ _ he₁ hroot token (hfront.tokens_subset htoken)
    exact (hrests k hk).1.not_isResting hfront
      (fun s hs => hready s (by rw [hs]; exact hreported)) (hrests k hk).2

/-! ## The theorem -/

/-- **Executions of machines without cycles.**  Whatever happens to an execution of a valid machine
of which no level has a cycle, and in whatever order: a state is entered only where a frame begins
an iteration with it; a frame, of the execution or of an item at any depth, begins an iteration with
each state once at most, and with states of its level only, so there are no more iterations than
states.  The execution ends if it is not given up, all functions answer and all tokens are reported
for. -/
theorem once_of_acyclic {before : Simulator} {name : String} {input : Json}
    (hmachine : before.machine? name = some machine) (hvalid : machine.violations = [])
    (hacyclic : machine.Acyclic) (hstart : before.start name input = .ok (h.sim 0, place)) :
    (∀ n, h.Enters place n → ∃ path state, h.Iterates place path n state) ∧
      (∀ path n state, h.Iterates place path n state →
        (∀ n', h.Iterates place path n' state → n = n') ∧
        ∃ l, machine.levelAlong? (path.map Prod.fst) = some l ∧ state ∈ Entries.keys l.states ∧
          {n | ∃ state, h.Iterates place path n state}.encard ≤ l.states.length) ∧
      (h.Polls place → (h.sim 0).engine.services.Answer → h.Reports place → h.Ends place) := by
  obtain ⟨machine', hmachine', executionName, he⟩ := start_eq_ok hstart
  obtain rfl : machine = machine' := Option.some.inj (hmachine.symm.trans hmachine')
  have hrecounts := Execution.recounts_create (.ofMachine name executionName input
    before.engine.world.now) machine
  refine ⟨fun n => exists_iterates, fun path n state hiterates => ⟨fun n' hiterates' => ?_, ?_⟩,
    fun hpolls hanswer hreports => ?_⟩
  · exact eq_of_iterates he hrecounts hacyclic hiterates hiterates'
  · obtain ⟨l, hlevel, hmem⟩ := hiterates.mem_states he hrecounts hvalid
    exact ⟨l, hlevel, hmem, encard_iterations_le he hrecounts hvalid hacyclic hlevel⟩
  · exact ends_of_acyclic he rfl hacyclic hpolls hanswer hreports

end History

/-! ### Through a callback task, a sleep and a choice -/

/-- The machine of an item, whose one state is a callback task. -/
def askingOnce : Machine where
  comment? := none
  startAt := "Ask"
  states := [("Ask", .task ⟨none, "f.waitForTaskToken", .absent,
    some (.object [("FunctionName", .string "f")]), .absent, .absent, none, ⟨none, true⟩⟩)]
  timeout? := none

/-- Asks for each item, waits for a second, and succeeds by whichever rule of its choice. -/
def approving : Machine where
  comment? := none
  startAt := "Each"
  states := [("Each", .map ⟨none, none, none, none, 0, .absent, .absent, .absent,
      ⟨some "Rest", false⟩⟩ (some askingOnce) none),
    ("Rest", .wait ⟨none, some 1, none, none, none, .absent, .absent, ⟨some "Check", false⟩⟩),
    ("Check", .choice ⟨none, [.test ⟨some "$", some "Done"⟩ (.type .isNull true)], some "Done",
      .absent, .absent⟩),
    ("Done", .succeed ⟨none, .absent, .absent⟩)]
  timeout? := none

theorem violations_approving : approving.violations = [] := by decide +kernel

/-- In both of its levels the states are listed in the order in which they follow. -/
theorem acyclic_approving : approving.Acyclic := by
  have hlevels : ∀ l, approving.HasLevel l → l = approving ∨ l = askingOnce := by
    intro l hl
    induction hl with
    | self => exact .inl rfl
    | inside _ hs hp ih =>
      rcases ih with rfl | rfl
      · simp only [approving, List.mem_cons, Prod.mk.injEq, State.map.injEq, reduceCtorEq,
          and_false, List.not_mem_nil, or_false] at hs
        obtain ⟨-, -, rfl, rfl⟩ := hs
        exact .inr (Option.some.inj hp).symm
      · simp [askingOnce] at hs
  intro l hl
  rcases hlevels l hl with rfl | rfl
  · exact Machine.not_follows_of_listed (by decide)
  · exact Machine.not_follows_of_listed (by decide)

/-- Services whose one function returns at once. -/
def answering : Services :=
  .standard (Bindings.none.insert "m" "Ask" ⟨"f", "main"⟩) fun _ =>
    some fun _ input _ => .answer (.ok input)

theorem answer_answering : answering.Answer := by
  rintro binding handler ⟨⟩ earlierCalls input context
  trivial

/-- A simulator that knows `approving`. -/
def knowingApproving : Simulator := ⟨[("m", approving)], Engine.initial answering default⟩

/-- A simulator in which an execution of `approving` was started with one item. -/
def startedApproving : Simulator :=
  { knowingApproving with
    engine := (knowingApproving.engine.launch "m" approving (.array [.null])).1 }

/-- The item is asked about, and the answer reported; then a second passes. -/
def approvingSession : List Request :=
  [.move (.start 0), .move (.leaf 0 .step []), .move (.leaf 0 .step [0]),
    .move (.leaf 0 .step [0]), .move (.settle (freshName 1) (.success .null)),
    .move (.leaf 0 .step [0]), .move (.leaf 0 .step [0]), .move (.leaf 0 .step []),
    .move (.leaf 0 .step []), .move (.wait 1000), .move (.leaf 0 .step []),
    .move (.leaf 0 .step []), .move (.leaf 0 .step []), .move (.leaf 0 .step []),
    .move (.leaf 0 .step []), .move (.leaf 0 .step [])]

/-- The history of an execution in which everything that is waited for comes. -/
def approvingHistory : History := .ofSession startedApproving approvingSession (by decide +kernel)

theorem polls_approvingHistory : approvingHistory.Polls 0 where
  starts := ⟨0, rfl⟩
  goesOn n hready :=
    ⟨15, Nat.le_of_lt_succ (hready.lt_length (by decide +kernel)), .inl rfl⟩
  timesOut n hexpires := by
    have hsession : ∀ n < 16, ¬ ((approvingHistory.sim n).engine.move (.expire 0)).isSome := by
      decide +kernel
    exact (hsession n (History.ofSession_lt
      (P := fun sim => (sim.engine.move (.expire 0)).isSome) (by decide +kernel) hexpires)
        hexpires).elim
  timePasses n hresting := by
    have hsession : ∀ n < 16, approvingHistory.IsResting 0 n →
        n ≤ 10 ∧ approvingHistory.clock n < approvingHistory.clock 10 := by decide +kernel
    exact ⟨10, hsession n (hresting.lt_length (by decide +kernel)) hresting⟩

/-- The tokens that the execution waits on at a moment. -/
def approvingTokens (sim : Simulator) : List String :=
  ((sim.engine.executions[0]?.bind (·.frame?)).map (·.run.tokens)).getD []

theorem reports_approvingHistory : approvingHistory.Reports 0 := by
  intro n e root he hroot token htoken
  have htokens : token ∈ approvingTokens (approvingHistory.sim n) := by
    have he : (approvingHistory.sim n).engine.executions[0]? = some e := he
    simp [approvingTokens, he, hroot, htoken]
  have hsession : ∀ n < 16, ∀ token ∈ approvingTokens (approvingHistory.sim n),
      (awaitedResult? "Ask" token
        ((approvingHistory.sim 16).engine.world.tokens.peek token)).isSome := by decide +kernel
  have hlt : n < 16 := History.ofSession_lt (P := fun sim => approvingTokens sim ≠ [])
    (by decide +kernel) (List.ne_nil_of_mem htokens)
  refine ⟨16, Nat.le_of_lt hlt, fun hempty => ?_⟩
  have hsome := hsession n hlt token htokens
  rw [hempty] at hsome
  cases hsome

/-- The execution begins with an iteration for its Map state, has no more than four, and ends. -/
theorem History.once_of_acyclic_approving :
    knowingApproving.machine? "m" = some approving ∧ approving.violations = [] ∧
      approving.Acyclic ∧
      knowingApproving.start "m" (.array [.null]) = .ok (approvingHistory.sim 0, 0) ∧
      approvingHistory.Polls 0 ∧ (approvingHistory.sim 0).engine.services.Answer ∧
      approvingHistory.Reports 0 ∧ approvingHistory.Iterates 0 [] 1 "Each" ∧
      (∀ n, approvingHistory.Iterates 0 [] n "Each" → 1 = n) ∧
      {n | ∃ state, approvingHistory.Iterates 0 [] n state}.encard ≤ 4 ∧
      approvingHistory.Ends 0 := by
  have hmachine : knowingApproving.machine? "m" = some approving := rfl
  have hstart : knowingApproving.start "m" (.array [.null]) = .ok (approvingHistory.sim 0, 0) := rfl
  have hanswer : (approvingHistory.sim 0).engine.services.Answer := answer_answering
  obtain ⟨-, honce, hends⟩ :=
    History.once_of_acyclic hmachine violations_approving acyclic_approving hstart
  have hmaps : approvingHistory.Iterates 0 [] 1 "Each" :=
    ⟨.step, _, _, _, _, rfl, rfl, rfl, .here, rfl⟩
  obtain ⟨hunique, l, hlevel, -, hbound⟩ := honce _ _ _ hmaps
  obtain rfl : approving = l := Option.some.inj hlevel
  exact ⟨hmachine, violations_approving, acyclic_approving, hstart, polls_approvingHistory, hanswer,
    reports_approvingHistory, hmaps, hunique, hbound,
    hends polls_approvingHistory hanswer reports_approvingHistory⟩

end Simulator

end StateFlow
