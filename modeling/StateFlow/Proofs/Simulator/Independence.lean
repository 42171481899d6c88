import StateFlow.Proofs.Execution.Independence
import StateFlow.Proofs.Execution.OnCourse

/-!
# What an execution ends with does not depend on its context

Two executions of a machine with one input differ in their identifiers and names, in the time at
which they were started, in what the clock showed on the way, and in the order in which things
happened.  All of this is in the context object or decides what is entered into it.  Where a machine
has no callback tasks and no expression of it begins with `$$`, and functions look at the input of a
call only, the executions end with the same result (`Simulator.Attempt.result_unique`).

## Main definitions

* `Simulator.Attempt`: a session in which an execution of a machine was started
* `Simulator.Attempt.Undisturbed`: nothing of the execution timed out, it was not cancelled, and no
  function of it panicked

## Main results

* `Engine.Pursues.move`: an execution stays on course, whoever moves
* `Simulator.Attempt.result_unique`: attempts at one input end with one result
-/

namespace StateFlow

/-- The execution at a place times out by the move, or a task of it. -/
def Move.TimesOut (place : Nat) : Move → Prop
  | .expire other | .leaf other .expire _ => other = place
  | _ => False

namespace Engine

/-! ## An execution that holds no tokens -/

/-- An execution of a machine without callback tasks stands at a place and is on course; it and all
others report for their own tokens only. -/
structure Pursues (engine : Engine) (place : Nat) (e : Execution) : Prop where
  blind : engine.services.Blind
  reports : ∀ other ∈ engine.executions, other.ReportsOwn
  here : engine.executions[place]? = some e
  uncalled : e.machine.Uncalled
  declared : e.AsDeclared
  onCourse : e.OnCourse engine.services engine.world

variable {engine engine' : Engine} {place : Nat} {e e' : Execution} {m : Move} {w : World}

namespace Pursues

theorem reportsOwn (h : engine.Pursues place e) : e.ReportsOwn :=
  h.reports e (List.mem_of_getElem? h.here)

/-- An execution without tokens is on course in every world of the same origin. -/
theorem onCourse_of_origin (h : engine.Pursues place e) (horigin : w.origin = engine.world.origin) :
    e.OnCourse engine.services w := by
  refine h.onCourse.of_awaits horigin fun token htoken => ?_
  rw [h.declared.tokens_eq_nil h.uncalled] at htoken
  cases htoken

/-- A move of a leaf that is no time-out keeps the execution on course. -/
theorem leaf (h : engine.Pursues place e) {move : Run.LeafMove} {address : List Nat}
    (htime : move ≠ .expire)
    (hmove : e.moveAt? engine.services engine.world move address = some (w, e')) :
    e'.OnCourse engine.services w := by
  have htokens := h.declared.tokens_eq_nil h.uncalled
  have hnamed := h.declared.moveAt?_named h.uncalled hmove
  refine h.onCourse.moveAt? h.blind.steady h.blind.sequenced h.reportsOwn ?_ ?_ ?_ htime hmove
  · rw [htokens]
    exact List.nodup_nil
  · intro _ htoken
    rw [htokens] at htoken
    cases htoken
  · intro hlt
    omega

/-- Where the execution does something itself, it stays on course. -/
theorem deed (h : engine.Pursues place e) {d : Deed} (htime : ¬ (d.at place).TimesOut place)
    (hact : d.act engine.services engine.world e = some (w, e')) :
    e'.OnCourse engine.services w := by
  cases d with
  | start =>
    obtain ⟨e₁, hstart, heq⟩ := Option.map_eq_some_iff.mp hact
    cases heq
    exact h.onCourse.start? hstart
  | leaf move address =>
    apply h.leaf ?_ hact
    rintro rfl
    exact htime rfl
  | abort address => exact .abort? hact
  | expire => exact (htime rfl).elim

/-- What the execution is after a move. -/
theorem of_here (h : engine.Pursues place e) (hmove : engine.move m = some engine')
    (he' : engine'.executions[place]? = some e')
    (hcourse : e'.OnCourse engine.services engine'.world) :
    engine'.Pursues place e' ∧ e'.machine = e.machine ∧ e'.identity = e.identity := by
  have hevolves := evolves_of_move hmove
  obtain ⟨e₀, he₀, hchange⟩ := hevolves.change place e' he'
  obtain rfl : e = e₀ := Option.some.inj (h.here.symm.trans he₀)
  have hfixed := hchange.fixed
  refine ⟨⟨?_, reportsOwn_of_move h.blind.steady h.reports hmove, he', ?_,
    h.declared.change hchange, ?_⟩, hfixed⟩
  · rw [hevolves.services]
    exact h.blind
  · rw [hfixed.1]
    exact h.uncalled
  · rw [hevolves.services]
    exact hcourse

/-- What the execution does itself, or what is done to it, keeps it on course. -/
theorem own (h : engine.Pursues place e) (hmove : engine.move m = some engine')
    (hplace : m.place? = some place) (htime : ¬ m.TimesOut place) :
    ∃ e', engine'.Pursues place e' ∧ e'.machine = e.machine ∧ e'.identity = e.identity := by
  have hlt : place < engine.executions.length := (List.getElem?_eq_some_iff.mp h.here).1
  have hdeed : ∀ d : Deed, m = d.at place → ∃ e', engine'.Pursues place e' ∧
      e'.machine = e.machine ∧ e'.identity = e.identity := by
    rintro d rfl
    have hact := hmove
    rw [move_deed] at hact
    obtain ⟨e₀, w, e', he₀, hact, rfl⟩ := update?_eq_some hact
    obtain rfl : e = e₀ := Option.some.inj (h.here.symm.trans he₀)
    exact ⟨e', h.of_here hmove (by simp [hlt]) (h.deed htime hact)⟩
  cases m with
  | start place =>
    cases hplace
    exact hdeed .start rfl
  | leaf place move address =>
    cases hplace
    exact hdeed (.leaf move address) rfl
  | abort place address =>
    cases hplace
    exact hdeed (.abort address) rfl
  | expire place =>
    cases hplace
    exact (htime rfl).elim
  | cancel place =>
    cases hplace
    have hact := hmove
    obtain ⟨e₀, w, e', he₀, hcancel, rfl⟩ := update?_eq_some hact
    cases hcancel
    refine ⟨{ e₀ with cancelled := true }, h.of_here hmove (by simp [hlt]) ?_⟩
    intro hactive
    cases hactive
  | report n => cases hplace
  | wait time => cases hplace
  | settle token settlement => cases hplace

/-- **An execution stays on course, whoever moves**, as long as nothing of it times out. -/
theorem move (h : engine.Pursues place e) (hmove : engine.move m = some engine')
    (htime : ¬ m.TimesOut place) :
    ∃ e', engine'.Pursues place e' ∧ e'.machine = e.machine ∧ e'.identity = e.identity := by
  cases hplace : m.place? with
  | none =>
    obtain ⟨hexecutions, horigin⟩ := same_of_move hmove hplace
    exact ⟨e, h.of_here hmove (hexecutions ▸ h.here) (h.onCourse_of_origin horigin)⟩
  | some other =>
    by_cases hother : other = place
    · subst hother
      exact h.own hmove hplace htime
    · obtain ⟨e₁, w, e₁', he₁, rfl, hserves⟩ := serves_of_move h.reports hmove hplace
      refine ⟨e, h.of_here hmove ?_ (h.onCourse_of_origin hserves.minds.origin)⟩
      show (engine.executions.set other e₁')[place]? = some e
      rw [List.getElem?_set_ne hother]
      exact h.here

/-- An execution stays on course when another one is started. -/
theorem launch (h : engine.Pursues place e) (name : String) (machine : Machine) (input : Json) :
    (engine.launch name machine input).1.Pursues place e := by
  have hlt : place < engine.executions.length := (List.getElem?_eq_some_iff.mp h.here).1
  refine ⟨h.blind, fun other hother => ?_, ?_, h.uncalled, h.declared, h.onCourse_of_origin rfl⟩
  · rcases List.mem_append.mp hother with hold | hnew
    · exact h.reports other hold
    · rw [List.mem_singleton.mp hnew]
      trivial
  · show (engine.executions ++ [_])[place]? = some e
    rw [List.getElem?_append_left hlt]
    exact h.here

end Pursues

end Engine

namespace Simulator

/-! ## Attempts -/

/-- An attempt at an input: a session, begun at whatever time and with whatever requests, in which
an execution of a machine is started with the input and has come so far. -/
structure Attempt (services : Services) (name : String) (machine : Machine) (input : Json) where
  origin : Timestamp
  earlier : List Request
  before : Simulator
  started : Simulator
  place : Nat
  later : List Request
  sim : Simulator
  execution : Execution
  hbefore : (initial services origin).after? earlier = some before
  hmachine : before.machine? name = some machine
  hstart : before.start name input = .ok (started, place)
  hlater : started.after? later = some sim
  hexecution : sim.engine.executions[place]? = some execution

/-- The execution at a place times out by the request, or a task of it. -/
def Request.TimesOut (place : Nat) : Request → Prop
  | .move m => m.TimesOut place
  | _ => False

variable {services : Services} {origin : Timestamp} {rs : List Request} {sim sim' : Simulator}
  {place : Nat} {e : Execution}

/-- With steady services all executions report for their own tokens, in every session. -/
theorem reportsOwn_session (hservices : services.Steady)
    (h : (initial services origin).after? rs = some sim) :
    ∀ e ∈ sim.engine.executions, e.ReportsOwn := by
  have hinit : ∀ e ∈ (initial services origin).engine.executions, e.ReportsOwn := by
    intro e he
    cases he
  refine session_induction (P := fun _ s => ∀ e ∈ s.engine.executions, e.ReportsOwn) hinit ?_ rs h
  intro rs s r s' hs ih hr
  rcases serve?_cases hr with ⟨rfl, -⟩ | ⟨_, _, -, -, rfl⟩ | ⟨name, input, machine, -, -, rfl⟩ |
    ⟨_, _, -, hmove, rfl⟩
  · exact ih
  · exact ih
  · intro e he
    rcases List.mem_append.mp he with hold | hnew
    · exact ih e hold
    · rw [List.mem_singleton.mp hnew]
      trivial
  · have hsame : s.engine.services = services := (accepts_session hs).services
    exact Engine.reportsOwn_of_move (hsame ▸ hservices) ih hmove

/-- An execution stays on course in a session, as long as nothing of it times out. -/
theorem pursues_session (h : sim.engine.Pursues place e) (hrs : sim.after? rs = some sim')
    (hintime : ∀ r ∈ rs, ¬ r.TimesOut place) :
    ∃ e', sim'.engine.Pursues place e' ∧ e'.machine = e.machine ∧ e'.identity = e.identity := by
  refine session_induction (P := fun rs s => (∀ r ∈ rs, ¬ r.TimesOut place) →
    ∃ e', s.engine.Pursues place e' ∧ e'.machine = e.machine ∧ e'.identity = e.identity)
    (fun _ => ⟨e, h, rfl, rfl⟩) ?_ rs hrs hintime
  intro rs s r s' _ ih hr hintime
  obtain ⟨e₁, h₁, hmachine, hidentity⟩ := ih fun r hmem => hintime r (List.mem_append_left _ hmem)
  rcases serve?_cases hr with ⟨rfl, -⟩ | ⟨_, _, -, -, rfl⟩ | ⟨name, input, machine, -, -, rfl⟩ |
    ⟨m, engine, rfl, hmove, rfl⟩
  · exact ⟨e₁, h₁, hmachine, hidentity⟩
  · exact ⟨e₁, h₁, hmachine, hidentity⟩
  · exact ⟨e₁, h₁.launch name machine input, hmachine, hidentity⟩
  · have htime : ¬ Request.TimesOut place (.move m) := hintime (.move m) (by simp)
    obtain ⟨e₂, h₂, hmachine', hidentity'⟩ := h₁.move hmove htime
    exact ⟨e₂, h₂, hmachine'.trans hmachine, hidentity'.trans hidentity⟩

namespace Attempt

variable {services : Services} {name : String} {machine : Machine} {input : Json}

/-- Nothing of the execution has timed out, it was not cancelled, and no function of it panicked: a
panic takes the place of whatever else the execution would have come to, and so depends on the order
in which things happen. -/
structure Undisturbed (a : Attempt services name machine input) : Prop where
  intime : ∀ r ∈ a.later, ¬ r.TimesOut a.place
  active : a.execution.cancelled = false
  unaborted : ∀ report, a.execution.result? ≠ some (.error (.executionAborted report))

theorem session (a : Attempt services name machine input) :
    (initial services a.origin).after? (a.earlier ++ [.start name input]) = some a.started := by
  rw [after?_append, a.hbefore]
  simp [after?, serve?, a.hstart]

theorem services_eq (a : Attempt services name machine input) :
    a.sim.engine.services = services := by
  have hsession :
      (initial services a.origin).after? ((a.earlier ++ [.start name input]) ++ a.later) =
      some a.sim := by
    rw [after?_append, a.session]
    exact a.hlater
  exact (accepts_session hsession).services

/-- The execution of an attempt is on course as long as nothing of it times out. -/
theorem pursues (a : Attempt services name machine input) (hservices : services.Blind)
    (hm : machine.Uncalled) (hintime : ∀ r ∈ a.later, ¬ r.TimesOut a.place) :
    a.sim.engine.Pursues a.place a.execution ∧ a.execution.machine = machine ∧
      ∃ executionName started,
        a.execution.identity = .ofMachine name executionName input started := by
  obtain ⟨machine', hmachine', executionName, hcreated⟩ := start_eq_ok a.hstart
  obtain rfl : machine = machine' := Option.some.inj (a.hmachine.symm.trans hmachine')
  have hsame := (accepts_session a.session).services
  have hstarted : a.started.engine.Pursues a.place (.create
      (.ofMachine name executionName input a.before.engine.world.now) machine) := by
    refine ⟨?_, reportsOwn_session hservices.steady a.session, hcreated, hm, .create _ _,
      fun _ => rfl⟩
    rw [hsame]
    exact hservices
  obtain ⟨e, hpursues, hmachine, hidentity⟩ := pursues_session hstarted a.hlater hintime
  obtain rfl : a.execution = e := Option.some.inj (a.hexecution.symm.trans hpursues.here)
  exact ⟨hpursues, hmachine, executionName, _, hidentity⟩

/-- **What an execution ends with does not depend on its context.**  Two executions of a machine
without callback tasks, in which no expression begins with `$$`, started with the same input in
whatever sessions: under whatever names, at whatever times, and whatever the clock shows and in
whatever order things happen.  If the functions look at the input of a call only, and neither has
timed out, been cancelled or aborted, then they end with the same result, the same payload or the
same fault, and have told the same of the states at the top level. -/
theorem result_unique (hservices : services.Blind) (hm : machine.Uncalled)
    (hpayload : machine.PayloadOnly) (a a' : Attempt services name machine input)
    (ha : a.Undisturbed) (ha' : a'.Undisturbed) {result result' : Except Fault Json}
    (hresult : a.execution.result? = some result)
    (hresult' : a'.execution.result? = some result') :
    result = result' ∧ a.execution.topEvents = a'.execution.topEvents := by
  obtain ⟨hpursues, hmachine, executionName, started, hidentity⟩ := a.pursues hservices hm ha.intime
  obtain ⟨hpursues', hmachine', executionName', started', hidentity'⟩ :=
    a'.pursues hservices hm ha'.intime
  have hcourse := hpursues.onCourse ha.active
  have hcourse' := hpursues'.onCourse ha'.active
  rw [Execution.result?_eq_some_iff.mp hresult] at hcourse
  rw [Execution.result?_eq_some_iff.mp hresult'] at hcourse'
  obtain ⟨readings, hreadings⟩ := hcourse fun report heq => ha.unaborted report (heq ▸ hresult)
  obtain ⟨readings', hreadings'⟩ :=
    hcourse' fun report heq => ha'.unaborted report (heq ▸ hresult')
  rw [Execution.course?, hmachine, hidentity, a.services_eq] at hreadings
  rw [Execution.course?, hmachine', hidentity', a'.services_eq] at hreadings'
  have hname : (Identity.ofMachine name executionName' input started').machineName =
      (Identity.ofMachine name executionName input started).machineName := rfl
  have hsame := Readings.course?_unique hservices hname hm hpayload hreadings hreadings'
  exact ⟨congrArg Prod.snd hsame, congrArg Prod.fst hsame⟩

/-! ### Two attempts at one input -/

/-- Services whose one function takes its time and answers with its input. -/
def echoingServices : Services :=
  .standard (Bindings.none.insert "m" "Ask" ⟨"f", "main"⟩) fun _ =>
    some fun _ input _ => .pause 5 (.answer (.ok input))

theorem blind_echoingServices : echoingServices.Blind := by
  constructor
  · rintro binding handler ⟨⟩ earlier earlier' input context context'
    rfl
  · rintro binding handler ⟨⟩ earlier input context
    trivial

/-- Asks a function. -/
def asking : Machine where
  comment? := none
  startAt := "Ask"
  states := [("Ask", .task ⟨none, "f", .absent, some (.object [("value.$", .string "$.all")]),
    .absent, .absent, some 60, ⟨none, true⟩⟩)]
  timeout? := none

/-- Picks a Map state that asks a function for each of its items. -/
def picking : Machine where
  comment? := none
  startAt := "Pick"
  states := [
    ("Pick", .choice ⟨none, [.test ⟨some "$.go", some "Each"⟩
      (.compare .boolean .equals (.path "$.go"))], none, .absent, .absent⟩),
    ("Each", .map ⟨none, some "$.items", some (.object [("all.$", .string "$.items")]), none, 0,
      .absent, .absent, .absent, ⟨none, true⟩⟩ (some asking) none)]
  timeout? := some 60

theorem hasLevel_picking {level : Machine} (h : picking.HasLevel level) :
    level = picking ∨ level = asking := by
  induction h with
  | self => exact .inl rfl
  | inside _ hs hp ih =>
    rcases ih with rfl | rfl
    · simp [picking] at hs
      obtain ⟨-, -, rfl, rfl⟩ := hs
      exact .inr (Option.some.inj hp).symm
    · simp [asking] at hs

theorem uncalled_picking : picking.Uncalled := by
  intro p hp
  obtain rfl := List.mem_singleton.mp hp
  decide +kernel

theorem payloadOnly_picking : picking.PayloadOnly := by
  intro level hlevel entry hentry
  rcases hasLevel_picking hlevel with rfl | rfl
  · simp only [picking, List.mem_cons, List.not_mem_nil, or_false] at hentry
    rcases hentry with rfl | rfl
    · intro r hr
      obtain rfl := List.mem_singleton.mp hr
      simp only [Rule.PayloadOnly, Test.PayloadOnly]
      constructor
      · rintro expression ⟨⟩
        decide +kernel
      · decide +kernel
    · rintro template ⟨⟩
      have hname : Template.filledName? "all.$" = some "all" := by decide +kernel
      simp only [Template.PayloadOnly, Template.EntriesPayloadOnly, hname,
        Template.ExpressionPayloadOnly, and_true]
      decide +kernel
  · obtain rfl := List.mem_singleton.mp hentry
    rintro template ⟨⟩
    have hname : Template.filledName? "value.$" = some "value" := by decide +kernel
    simp only [Template.PayloadOnly, Template.EntriesPayloadOnly, hname,
      Template.ExpressionPayloadOnly, and_true]
    decide +kernel

/-- The input: two items. -/
def pickedInput : Json := .object [("go", .boolean true), ("items", .array [.null, .null])]

/-- The first item is asked for first. -/
def inTurn : List Request :=
  [.move (.start 0), .move (.leaf 0 .step []), .move (.leaf 0 .step []), .move (.leaf 0 .step []),
    .move (.leaf 0 .step [0]), .move (.leaf 0 .step [0]), .move (.wait 7),
    .move (.leaf 0 .step [0]), .move (.leaf 0 .step [0]), .move (.leaf 0 .step [0]),
    .move (.leaf 0 .step [1]), .move (.leaf 0 .step [1]), .move (.wait 12),
    .move (.leaf 0 .step [1]), .move (.leaf 0 .step [1]), .move (.leaf 0 .step [1]),
    .move (.leaf 0 .step [])]

/-- Another execution has been started before, and the second item is asked for first. -/
def outOfTurn : List Request :=
  [.move (.wait 1000), .move (.start 1), .move (.leaf 1 .step []), .move (.leaf 1 .step []),
    .move (.leaf 1 .step []), .move (.leaf 1 .step [1]), .move (.leaf 1 .step [1]),
    .move (.leaf 1 .step [0]), .move (.leaf 1 .step [0]), .move (.wait 1005),
    .move (.leaf 1 .step [1]), .move (.leaf 1 .step [1]), .move (.leaf 1 .step [1]),
    .move (.leaf 1 .step [0]), .move (.leaf 1 .step [0]), .move (.leaf 1 .step [0]),
    .move (.leaf 1 .step [])]

/-- What has become of an execution that was started in a session. -/
def attempted? (services : Services) (origin : Timestamp) (earlier : List Request) (name : String)
    (input : Json) (later : List Request) : Option (Nat × Execution) :=
  ((initial services origin).after? earlier).bind fun before =>
    ((before.start name input).toOption).bind fun p =>
      (p.1.after? later).bind fun sim => (sim.engine.executions[p.2]?).map fun e => (p.2, e)

theorem exists_attempt {origin : Timestamp} {earlier later : List Request} {place : Nat}
    {e : Execution} (hrun : attempted? services origin earlier name input later = some (place, e))
    (hmachine : ((initial services origin).after? earlier).bind (·.machine? name) = some machine) :
    ∃ a : Attempt services name machine input,
      a.origin = origin ∧ a.later = later ∧ a.place = place ∧ a.execution = e := by
  obtain ⟨before, hbefore, hrun⟩ := Option.bind_eq_some_iff.mp hrun
  obtain ⟨⟨started, place'⟩, hstart, hrun⟩ := Option.bind_eq_some_iff.mp hrun
  obtain ⟨sim, hsim, hrun⟩ := Option.bind_eq_some_iff.mp hrun
  obtain ⟨e', he, heq⟩ := Option.map_eq_some_iff.mp hrun
  obtain ⟨rfl, rfl⟩ := Prod.mk.inj heq
  rw [hbefore] at hmachine
  have hstart : before.start name input = .ok (started, place') := by
    cases hcase : before.start name input with
    | error fault =>
      rw [hcase] at hstart
      cases hstart
    | ok p =>
      rw [hcase] at hstart
      cases hstart
      rfl
  exact ⟨⟨origin, earlier, before, started, place', later, sim, e', hbefore, hmachine, hstart, hsim,
    he⟩, rfl, rfl, rfl, rfl⟩

/-- The two attempts begin at different times and bear different names, the clock shows other times
and the items are asked for in another order. -/
theorem result_unique_picking : ∃ a a' : Attempt echoingServices "m" picking pickedInput,
    a.Undisturbed ∧ a'.Undisturbed ∧ a.origin ≠ a'.origin ∧
    a.execution.identity.executionName ≠ a'.execution.identity.executionName ∧
    ∃ result, a.execution.result? = some result ∧ a'.execution.result? = some result ∧
      a.execution.topEvents = a'.execution.topEvents := by
  have hcheck : (attempted? echoingServices default [.register "m" picking] "m" pickedInput
      inTurn).map (fun p => (p.1, p.2.cancelled, (p.2.result?.bind (·.toOption)).isSome,
        p.2.identity.executionName)) =
      some (0, false, true, freshName 0) := by decide +kernel
  have hcheck' : (attempted? echoingServices ⟨1000, 0⟩ [.register "m" picking, .start "m" .null]
      "m" pickedInput outOfTurn).map (fun p => (p.1, p.2.cancelled,
        (p.2.result?.bind (·.toOption)).isSome, p.2.identity.executionName)) =
      some (1, false, true, freshName 1) := by decide +kernel
  obtain ⟨⟨place, e⟩, hrun, hfound⟩ := Option.map_eq_some_iff.mp hcheck
  obtain ⟨⟨place', e'⟩, hrun', hfound'⟩ := Option.map_eq_some_iff.mp hcheck'
  simp only [Prod.mk.injEq] at hfound hfound'
  obtain ⟨rfl, hactive, hended, hnamed⟩ := hfound
  obtain ⟨rfl, hactive', hended', hnamed'⟩ := hfound'
  obtain ⟨output, hresult⟩ := Execution.exists_output hended
  obtain ⟨output', hresult'⟩ := Execution.exists_output hended'
  obtain ⟨a, horigin, hlater, hplace, rfl⟩ := @exists_attempt _ _ picking _ _ _ _ _ _ hrun (by rfl)
  obtain ⟨a', horigin', hlater', hplace', rfl⟩ :=
    @exists_attempt _ _ picking _ _ _ _ _ _ hrun' (by rfl)
  have ha : a.Undisturbed := by
    refine ⟨?_, hactive, by simp [hresult]⟩
    rw [hlater, hplace]
    simp [inTurn, Request.TimesOut, Move.TimesOut]
  have ha' : a'.Undisturbed := by
    refine ⟨?_, hactive', by simp [hresult']⟩
    rw [hlater', hplace']
    simp [outOfTurn, Request.TimesOut, Move.TimesOut]
  obtain ⟨heq, htop⟩ := result_unique blind_echoingServices uncalled_picking payloadOnly_picking
    a a' ha ha' hresult hresult'
  refine ⟨a, a', ha, ha', ?_, ?_, _, hresult, heq ▸ hresult', htop⟩
  · rw [horigin, horigin']
    decide
  · rw [hnamed, hnamed']
    decide +kernel

end Attempt

end Simulator

end StateFlow
