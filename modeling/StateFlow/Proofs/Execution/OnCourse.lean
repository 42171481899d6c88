import StateFlow.Proofs.Execution.Ending
import StateFlow.Proofs.Execution.Foretelling
import StateFlow.Proofs.Simulator.Quiet

/-!
# Executions on course

An execution that is not cancelled is on course: what it has told at the top level and what it will
come to make up a course of its machine (`Execution.OnCourse`).  When it runs alone it stays so,
whatever it does and whatever happens around it, and what it ends with is what its machine comes to
by what was read on the way (`Machine.EndsAloneWith.comesTo`).  Only the panic of a function takes
an execution off its course: nothing of its machine says when it comes.

## Main definitions

* `Execution.course?`: the course of the machine of an execution
* `Execution.topEvents`: the events of no item
* `Execution.OnCourse`: an execution that follows the course of its machine
* `Engine.vacant`: an engine without executions, at the present moment
* `Machine.ComesTo`, `Machine.EndsAloneWith`: the courses of a machine, and those that were taken
* `Machine.Indifferent`: a machine whose course does not depend on names and times

## Main results

* `Execution.OnCourse.act`: a deed keeps an execution on course
* `Machine.EndsAloneWith.comesTo`: an execution that ends alone, and is not aborted, has followed a
  course to its end
-/

namespace StateFlow

/-! ## Events of the top level -/

theorem Event.isTop_ending (result : Except Fault Json) : (ending result).isTop = false := by
  cases result with
  | ok output => rfl
  | error fault => cases fault <;> rfl

/-- What a move of a run of no item tells at its own level is told at the top level. -/
theorem Run.moveAt_topEvents {scope : Scope} {move : LeafMove} {m : Machine} {s s' : Situation}
    {address : List Nat} {run run' : Run} {told : List Event}
    (hmove : moveAt scope move m none s address run = some (s', run'))
    (hleaf : address = [] → s'.events = s.events ++ told) (hinner : address ≠ [] → told = []) :
    s'.events.filter Event.isTop = s.events.filter Event.isTop ++ told := by
  cases address with
  | nil =>
    obtain ⟨told', hevents, hof⟩ := moveLeaf_events hmove
    have htold := hleaf rfl
    obtain rfl : told' = told := List.append_cancel_left (hevents.symm.trans htold)
    have htop : told'.filter Event.isTop = told' := by
      apply List.filter_eq_self.mpr
      intro event hevent
      rw [(hof event hevent).isTop_eq]
      rfl
    rw [hevents, List.filter_append, htop]
  | cons index address =>
    obtain ⟨told', hevents, -, htop⟩ := moveAt_cons_events hmove
    rw [hevents, List.filter_append, htop, hinner (by simp)]

/-! ## Executions -/

namespace Execution

/-- The events that tell of the states of the machine itself, and not of those of items. -/
def topEvents (e : Execution) : List Event := e.events.filter Event.isTop

/-- The course of the machine of an execution, by what is read on the way. -/
def course? (e : Execution) (services : Services) (origin : Timestamp) (readings : Readings) :
    Option Course :=
  readings.course? ⟨services, e.identity⟩ origin none e.machine e.machine.startAt e.identity.input

/-- Unless it is cancelled or aborted, an execution has told the beginning of a course of its
machine, and will come to the rest of it. -/
def OnCourse (services : Services) (w : World) (e : Execution) : Prop :=
  e.cancelled = false → match e.phase with
    | .created => e.events = []
    | .running run _ => ∃ reported,
      Frame.Everywhere (Frame.InOrder w reported) ⟨e.machine, none, run⟩ ∧
      ∀ later, ∃ readings, e.course? services w.origin readings =
        (run.course? ⟨services, e.identity⟩ w.origin reported none e.machine later).map
          (.after e.topEvents)
    | .finished result => (∀ report, result ≠ .error (.executionAborted report)) → ∃ readings,
      e.course? services w.origin readings = some (e.topEvents, result)

variable {e e' : Execution} {services : Services} {w w' : World}

namespace OnCourse

/-- Only the reports for the tokens of an execution count. -/
theorem of_awaits (he : e.OnCourse services w) (horigin : w'.origin = w.origin)
    (hawaits : ∀ token ∈ e.tokens, ∀ reported progress, w.Awaits reported token progress →
      w'.Awaits reported token progress) : e.OnCourse services w' := by
  intro hactive
  have he := he hactive
  rw [horigin]
  cases hphase : e.phase with
  | created => simpa only [hphase] using he
  | finished result => simpa only [hphase] using he
  | running run deadline? =>
    rw [hphase] at he
    obtain ⟨reported, horder, hcourse⟩ := he
    refine ⟨reported, horder.inOrder_of_awaits fun token htoken progress => ?_, hcourse⟩
    refine hawaits token ?_ _ progress
    simpa only [tokens, hphase] using htoken

theorem start? (he : e.OnCourse services w) (h : e.start? w = some e') :
    e'.OnCourse services w := by
  have hevents := start?_events h
  obtain ⟨hphase, started, rfl⟩ := start?_eq_some h
  intro hactive
  have hnone : e.events = [] := by
    simpa only [hphase] using he hactive
  refine ⟨fun _ => [], .of_items_eq_nil rfl nofun, fun later => ⟨later, ?_⟩⟩
  have htop : Execution.topEvents { e with
      events := e.events ++ [started]
      phase := .running (.start e.machine e.identity.input)
        (e.machine.timeout?.map w.deadlineAfter) } = [] := by
    rw [topEvents, hevents, hnone]
    rfl
  rw [htop, Course.map_after_nil]
  rfl

/-- An execution is on course with a run that will come to what is left. -/
theorem withRun {s : Situation} {deadline? : Option Nat} {run : Run}
    {reported : String → List Settlement}
    (horder : Frame.Everywhere (Frame.InOrder s.world reported) ⟨e.machine, none, run⟩)
    (hcourse : ∀ later, ∃ readings, e.course? services s.world.origin readings =
      (run.course? ⟨services, e.identity⟩ s.world.origin reported none e.machine later).map
        (.after (s.events.filter Event.isTop))) :
    ((e.inSituation s).withRun deadline? run).OnCourse services s.world := by
  rcases withRun_cases (e.inSituation s) deadline? run with ⟨result, rfl, heq⟩ | ⟨-, heq⟩
  · rw [heq]
    intro _ _
    obtain ⟨readings, hreadings⟩ := hcourse .nothing
    refine ⟨readings, hreadings.trans ?_⟩
    have hended : ((e.inSituation s).finish result).topEvents = s.events.filter Event.isTop := by
      show (s.events ++ [Event.ending result]).filter Event.isTop = _
      rw [List.filter_append, List.filter_cons_of_neg (by simp [Event.isTop_ending])]
      simp
    rw [hended]
    simp [Run.course?, Course.after]
  · rw [heq]
    exact fun _ => ⟨reported, horder, hcourse⟩

/-- **A move keeps an execution on course**, unless it cancels it or a task times out by it.  A
token that it issues must not be known before. -/
theorem moveAt? {move : Run.LeafMove} {address : List Nat} (he : e.OnCourse services w)
    (hservices : services.Steady) (hsequenced : services.Sequenced) (hown : e.ReportsOwn)
    (hnodup : e.tokens.Nodup) (hfresh : w.named < w'.named → freshName w.named ∉ e.tokens)
    (hjobs : w.named < w'.named → w.jobsFor (freshName w.named) = []) (htime : move ≠ .expire)
    (h : e.moveAt? services w move address = some (w', e')) : e'.OnCourse services w' := by
  obtain ⟨run, deadline?, s, run', hphase, hmove, rfl, rfl⟩ := moveAt?_eq_some h
  have hrun : Frame.Everywhere Frame.ReportsOwn ⟨e.machine, none, run⟩ := by
    simpa only [ReportsOwn, hphase] using hown
  have htokens : e.tokens = run.tokens := by
    simp [tokens, hphase]
  rw [htokens] at hnodup hfresh
  intro hactive
  have hcancelled : ((e.inSituation s).withRun deadline? run').cancelled = s.cancelled := by
    rcases withRun_cases (e.inSituation s) deadline? run' with ⟨result, -, heq⟩ | ⟨-, heq⟩
    · rw [heq]
      rfl
    · rw [heq]
      rfl
  rw [hcancelled] at hactive
  have hbefore : e.cancelled = false := by
    cases hcase : e.cancelled with
    | false => rfl
    | true =>
      have hkeeps := Run.moveAt_keeps_of_cancelled (s := e.situation w) hcase hmove
      rw [hkeeps.cancelled hcase] at hactive
      cases hactive
  have hcourse := he hbefore
  rw [hphase] at hcourse
  obtain ⟨reported, horder, hcourse⟩ := hcourse
  obtain ⟨reported', told, hleaf, hinner, -, hfollows⟩ := Run.moveAt_course hservices hsequenced
    horder hrun hnodup hfresh hactive hjobs htime hmove
  have htop : s.events.filter Event.isTop = e.topEvents ++ told :=
    Run.moveAt_topEvents hmove hleaf hinner
  refine withRun hfollows.inOrder (fun later => ?_) (hcancelled.trans hactive)
  -- what is read by the move comes before what is read later
  obtain ⟨first, hfirst⟩ := hfollows.course later
  obtain ⟨readings, hreadings⟩ := hcourse first
  refine ⟨readings, ?_⟩
  have horigin : s.world.origin = w.origin := (Run.moveAt_minds hrun hmove).origin
  rw [horigin, htop, hreadings, ← Course.map_after_append]
  exact congrArg (Option.map _) hfirst

/-- Nothing is said of an execution that is aborted. -/
theorem abort? {address : List Nat} (h : e.abort? w address = some (w', e')) :
    e'.OnCourse services w' := by
  obtain ⟨_, _, report, -, -, -, rfl⟩ := abort?_eq_some h
  exact fun _ hunaborted => (hunaborted report rfl).elim

/-- **A deed keeps an execution on course**, unless it cancels it. -/
theorem act {d : Deed} (he : e.OnCourse services w) (hservices : services.Steady)
    (hsequenced : services.Sequenced) (hm : e.machine.Unlimited) (hdeclared : e.AsDeclared)
    (huntimed : e.Untimed) (hown : e.ReportsOwn) (howns : w.Owns e.tokens)
    (hjobs : ∀ job ∈ w.jobs, ∃ n < w.named, job.token = freshName n)
    (hnames : w'.NamesDistinct) (h : d.act services w e = some (w', e')) :
    e'.OnCourse services w' := by
  cases d with
  | start =>
    obtain ⟨e₁, hstart, heq⟩ := Option.map_eq_some_iff.mp h
    cases heq
    exact he.start? hstart
  | leaf move address =>
    have hfresh : w.named < w'.named → freshName w.named ∉ e.tokens := by
      intro hlt htoken
      obtain ⟨n, hn, hname⟩ := howns.named_of_mem htoken
      exact hnames.freshName_ne hlt hn hname.symm
    have hnone : w.named < w'.named → w.jobsFor (freshName w.named) = [] := by
      intro hlt
      apply List.filter_eq_nil_iff.mpr
      intro job hjob
      obtain ⟨n, hn, hname⟩ := hjobs job hjob
      simpa [hname] using hnames.freshName_ne hlt hn
    have htime : move ≠ .expire := by
      rintro rfl
      have h : e.moveAt? services w .expire address = some (w', e') := h
      rw [hdeclared.moveAt?_expire hm] at h
      cases h
    exact he.moveAt? hservices hsequenced hown howns.nodup hfresh hnone htime h
  | abort address => exact .abort? h
  | expire =>
    have h : e.expire? w = some (w', e') := h
    rw [huntimed.expire?] at h
    cases h

end OnCourse

end Execution

/-! ## Executions alone -/

namespace Engine

/-- An engine without executions, with the time of another and the names that it will give out. -/
def vacant (engine : Engine) : Engine where
  services := engine.services
  world := { World.initial engine.world.origin with
    clock := engine.world.clock
    named := engine.world.named }
  executions := []

section

variable {engine : Engine}

/-- The names that an engine has given out. -/
def namesGiven (engine : Engine) : List String :=
  (List.range engine.world.named).map freshName

theorem mem_namesGiven_iff {name : String} :
    name ∈ engine.namesGiven ↔ ∃ n < engine.world.named, name = freshName n := by
  simp [namesGiven, eq_comm]

/-- All that an orderly engine knows of bears a name that it has given out, so it is like a vacant
one, these names aside. -/
theorem Orderly.alike_vacant (h : engine.Orderly) :
    engine.world.Alike engine.namesGiven engine.vacant.world := by
  refine ⟨rfl, rfl, rfl, fun token htoken => ?_, ?_⟩
  · cases hticket : engine.world.tokens.ticket? token with
    | none => rfl
    | some ticket =>
      exact (htoken (mem_namesGiven_iff.mpr (h.owns.named token ticket hticket))).elim
  · have hnone : engine.world.jobs.filter (fun job => job.token ∉ engine.namesGiven) = [] := by
      apply List.filter_eq_nil_iff.mpr
      intro job hjob
      simpa using mem_namesGiven_iff.mpr (h.jobs job hjob)
    show List.Perm [] (engine.world.jobs.filter _)
    rw [hnone]

/-- An execution that has just been created is mirrored by an engine that has only this one; all
names that were given out before are foreign. -/
theorem Orderly.mirrors_launch (h : engine.Orderly) (name : String) {machine : Machine}
    (htimeout : machine.timeout? = none) (input : Json)
    (hnames : (engine.launch name machine input).1.world.NamesDistinct) :
    (engine.launch name machine input).1.Mirrors engine.executions.length engine.namesGiven
      (engine.vacant.launch name machine input).1 (.create
        (.ofMachine name (freshName engine.world.named) input engine.world.now) machine) where
  orderly := h.launch name machine input hnames
  untimed := ⟨htimeout, nofun⟩
  services := rfl
  here := List.getElem?_concat_length
  single := rfl
  world := ⟨rfl, rfl, rfl, h.alike_vacant.ticket?, h.alike_vacant.jobs⟩
  own := nofun
  others other e he _ token htoken := by
    have hmem := mem_tokens he htoken
    rw [tokens_launch] at hmem
    exact mem_namesGiven_iff.mpr (h.owns.named_of_mem hmem)
  named token htoken := by
    obtain ⟨n, hn, hname⟩ := mem_namesGiven_iff.mp htoken
    exact ⟨n, Nat.lt_succ_of_lt hn, hname⟩

end

/-- An engine with one execution, which has no deadlines and is on course. -/
structure OnCourse (alone : Engine) (e : Execution) : Prop where
  orderly : alone.Orderly
  single : alone.executions = [e]
  untimed : e.Untimed
  unlimited : e.machine.Unlimited
  declared : e.AsDeclared
  onCourse : e.OnCourse alone.services alone.world

variable {alone alone' : Engine} {e : Execution}

namespace OnCourse

theorem launch (engine : Engine) (hservices : engine.services.Steady) (name : String)
    {machine : Machine} (htimeout : machine.timeout? = none) (hm : machine.Unlimited)
    (input : Json) : (engine.vacant.launch name machine input).1.OnCourse (.create
      (.ofMachine name (freshName engine.world.named) input engine.world.now) machine) := by
  refine ⟨⟨hservices, ⟨List.nodup_nil, nofun, ?_⟩, nofun, ?_⟩, rfl, ⟨htimeout, nofun⟩, hm,
    .create _ _, fun _ => rfl⟩
  · intro token ticket hticket
    cases hticket
  · intro e he
    rw [List.mem_singleton.mp he]
    trivial

/-- What happens around an execution leaves it on course. -/
theorem rests (h : alone.OnCourse e) (hrests : alone.Rests alone')
    (hnames : alone'.world.NamesDistinct) : alone'.OnCourse e := by
  cases hrests with
  | @named n hle =>
    have howns := h.orderly.owns
    refine ⟨⟨h.orderly.steady, ⟨howns.nodup, howns.listening, fun token ticket hticket => ?_⟩,
      fun job hjob => ?_, h.orderly.reports⟩, h.single, h.untimed, h.unlimited, h.declared,
      h.onCourse.of_awaits rfl fun _ _ _ _ hawaits => hawaits.congr rfl rfl⟩
    · obtain ⟨k, hk, hname⟩ := howns.named token ticket hticket
      exact ⟨k, Nat.lt_of_lt_of_le hk hle, hname⟩
    · obtain ⟨k, hk, hname⟩ := h.orderly.jobs job hjob
      exact ⟨k, Nat.lt_of_lt_of_le hk hle, hname⟩
  | @passing move _ hm hmove =>
    have horderly := h.orderly.move hmove hnames
    have hsingle := (of_isPassing hm hmove).2.trans h.single
    refine ⟨horderly, hsingle, h.untimed, h.unlimited, h.declared, ?_⟩
    cases moves_of_move hmove with
    | report hjob => exact h.onCourse.of_awaits rfl fun _ _ _ _ hawaits => hawaits.report hjob
    | wait => exact h.onCourse.of_awaits rfl fun _ _ _ _ hawaits => hawaits.congr rfl rfl
    | start | leaf | abort | expire | cancel | settle => exact hm.elim

/-- What an execution does keeps it on course. -/
theorem deed (h : alone.OnCourse e) (hsequenced : alone.services.Sequenced) {d : Deed}
    (hmove : alone.move (d.at 0) = some alone') (hnames : alone'.world.NamesDistinct) :
    ∃ e', alone'.OnCourse e' ∧ e'.machine = e.machine ∧ e'.identity = e.identity := by
  have horderly := h.orderly.move hmove hnames
  rw [move_deed] at hmove
  obtain ⟨e₀, w, e', he₀, hact, rfl⟩ := update?_eq_some hmove
  rw [h.single] at he₀
  obtain rfl : e = e₀ := by simpa using he₀
  have hfixed := Deed.act_fixed hact
  refine ⟨e', ⟨horderly, by rw [h.single]; rfl, h.untimed.act hact, ?_, ?_, ?_⟩, hfixed⟩
  · rw [hfixed.1]
    exact h.unlimited
  · obtain ⟨leaf?, hchange⟩ := Deed.act_change hact
    exact h.declared.change hchange
  · have hmem : e ∈ alone.executions := by simp [h.single]
    have htokens : alone.tokens = e.tokens := by simp [tokens, h.single]
    exact h.onCourse.act h.orderly.steady hsequenced h.unlimited h.declared h.untimed
      (h.orderly.reports e hmem) (htokens ▸ h.orderly.owns) h.orderly.jobs hnames hact

/-- **An execution that runs alone stays on course.** -/
theorem runsAlone (h : alone.OnCourse e) (hsequenced : alone.services.Sequenced)
    (hruns : alone.RunsAlone alone') : alone'.services = alone.services ∧
      ∃ e', alone'.OnCourse e' ∧ e'.machine = e.machine ∧ e'.identity = e.identity := by
  induction hruns with
  | refl => exact ⟨rfl, e, h, rfl, rfl⟩
  | @tail alone₁ alone₂ _ hstep ih =>
    obtain ⟨hstep, hnames⟩ := hstep
    obtain ⟨hservices, e₁, h₁, hmachine, hidentity⟩ := ih
    rcases hstep with hrests | ⟨d, hmove⟩
    · exact ⟨hrests.services.trans hservices, e₁, h₁.rests hrests hnames, hmachine, hidentity⟩
    · have hservices' := (evolves_of_move hmove).services
      obtain ⟨e₂, h₂, hmachine', hidentity'⟩ := h₁.deed (hservices ▸ hsequenced) hmove hnames
      exact ⟨hservices'.trans hservices, e₂, h₂, hmachine'.trans hmachine,
        hidentity'.trans hidentity⟩

end OnCourse

end Engine

/-! ## What a machine comes to alone -/

namespace Machine

variable {m : Machine} {services : Services} {name : String} {input : Json} {course : Course}

/-- The machine has a course, for an execution of some name that starts at some time and reads
something on the way. -/
def ComesTo (m : Machine) (services : Services) (name : String) (input : Json) (course : Course) :
    Prop :=
  ∃ (executionName : String) (started origin : Timestamp) (readings : Readings),
    readings.course? ⟨services, .ofMachine name executionName input started⟩ origin none m m.startAt
      input = some course

/-- An execution of the machine has run alone, from some time on and with some names, and has ended
with a course without being cancelled. -/
def EndsAloneWith (m : Machine) (services : Services) (name : String) (input : Json)
    (course : Course) : Prop :=
  ∃ (engine alone : Engine) (e : Execution), engine.services = services ∧
    (engine.vacant.launch name m input).1.RunsAlone alone ∧ alone.executions = [e] ∧
    e.cancelled = false ∧ e.topEvents = course.1 ∧ e.result? = some course.2

/-- What a machine comes to does not depend on names and times, as far as a view of it goes that
may leave these out. -/
def Indifferent {α : Type} (m : Machine) (services : Services) (name : String) (input : Json)
    (view : Course → α) : Prop :=
  ∀ course course', m.ComesTo services name input course → m.ComesTo services name input course' →
    view course = view course'

/-- **An execution that ends alone ends with a course of its machine**, in whatever order things
have happened, if none of its functions has panicked. -/
theorem EndsAloneWith.comesTo (h : m.EndsAloneWith services name input course)
    (hunaborted : ∀ report, course.2 ≠ .error (.executionAborted report))
    (hservices : services.Steady) (hsequenced : services.Sequenced)
    (htimeout : m.timeout? = none) (hm : m.Unlimited) : m.ComesTo services name input course := by
  obtain ⟨engine, alone, e, rfl, hruns, hsingle, hactive, htop, hresult⟩ := h
  obtain ⟨hsame, e', hcourse, hmachine, hidentity⟩ :=
    (Engine.OnCourse.launch engine hservices name htimeout hm input).runsAlone hsequenced hruns
  obtain rfl : e = e' := by simpa using hsingle.symm.trans hcourse.single
  have hfinished := hcourse.onCourse hactive
  rw [Execution.result?_eq_some_iff.mp hresult, hsame] at hfinished
  obtain ⟨readings, hreadings⟩ := hfinished hunaborted
  rw [Execution.course?, hidentity, hmachine, htop] at hreadings
  exact ⟨_, _, _, readings, hreadings⟩

/-- All executions that end alone, and of which none is aborted, end the same. -/
theorem EndsAloneWith.view_eq {α : Type} {view : Course → α} {course' : Course}
    (h : m.EndsAloneWith services name input course)
    (h' : m.EndsAloneWith services name input course')
    (hunaborted : ∀ report, course.2 ≠ .error (.executionAborted report))
    (hunaborted' : ∀ report, course'.2 ≠ .error (.executionAborted report))
    (hservices : services.Steady) (hsequenced : services.Sequenced)
    (htimeout : m.timeout? = none) (hm : m.Unlimited)
    (hview : m.Indifferent services name input view) : view course = view course' :=
  hview course course' (h.comesTo hunaborted hservices hsequenced htimeout hm)
    (h'.comesTo hunaborted' hservices hsequenced htimeout hm)

end Machine

end StateFlow
