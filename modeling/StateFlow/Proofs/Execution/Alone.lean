import Mathlib.Logic.Relation
import StateFlow.Proofs.Execution.Reporting

/-!
# An execution among others and alone

Executions share the world: the clock, the names, the registry of tokens and the reports that are
left for later.  With steady services each of them deals with its own tokens only.  So what an
execution does among others it does in an engine of its own, where nothing else happens but that
time goes on, that the reports for its tokens are made, and that names are given out elsewhere
(`Engine.Rests`).  The one engine mirrors the other at every moment (`Engine.Mirrors`), and what is
possible in one of them is possible in the other.

## Main definitions

* `Deed`: what an execution does itself
* `Engine.Beside place`: what happens among executions beside the deeds of one of them
* `Engine.Rests`: what happens around an execution that runs alone
* `Engine.Orderly`: reports are made and left for tokens that were issued
* `Engine.Mirrors`: an engine of its own that mirrors an execution among others

## Main results

* `Engine.Mirrors.deed`: a deed is possible in both engines or in neither, and keeps the mirror
* `Engine.Mirrors.beside`: whatever happens beside the execution, the engine of its own rests
-/

namespace StateFlow

/-! ## Deeds -/

/-- What an execution does itself. -/
inductive Deed where
  | start
  | leaf (move : Run.LeafMove) (address : List Nat)
  | abort (address : List Nat)
  | expire
deriving Repr, Inhabited

/-- The deed of the execution at a place, as a move of its engine. -/
def Deed.at (place : Nat) : Deed → Move
  | start => .start place
  | leaf move address => .leaf place move address
  | abort address => .abort place address
  | expire => .expire place

/-- What comes of a deed. -/
def Deed.act (services : Services) (w : World) (e : Execution) : Deed → Option (World × Execution)
  | start => (e.start? w).map fun e' => (w, e')
  | leaf move address => e.moveAt? services w move address
  | abort address => e.abort? w address
  | expire => e.expire? w

/-- A deed changes the execution in one of the ways. -/
theorem Deed.act_change {services : Services} {w w' : World} {e e' : Execution} {d : Deed}
    (h : d.act services w e = some (w', e')) : ∃ leaf?, e.Change services w leaf? e' := by
  cases d with
  | start =>
    obtain ⟨e₁, hstart, heq⟩ := Option.map_eq_some_iff.mp h
    cases heq
    exact ⟨none, .started hstart⟩
  | leaf move address => exact ⟨some (move, address), .moved h⟩
  | abort address => exact ⟨none, .aborted h⟩
  | expire => exact ⟨none, .expired h⟩

/-- A deed changes neither the identity nor the machine. -/
theorem Deed.act_fixed {services : Services} {w w' : World} {e e' : Execution} {d : Deed}
    (h : d.act services w e = some (w', e')) :
    e'.machine = e.machine ∧ e'.identity = e.identity := by
  obtain ⟨leaf?, hchange⟩ := act_change h
  exact hchange.fixed

theorem Engine.move_deed (engine : Engine) (d : Deed) (place : Nat) :
    engine.move (d.at place) =
      engine.update? place fun e => d.act engine.services engine.world e := by
  cases d <;> rfl

/-- The place of the execution that a move concerns. -/
def Move.place? : Move → Option Nat
  | start place | leaf place _ _ | abort place _ | expire place | cancel place => some place
  | report _ | wait _ | settle _ _ => none

/-- Nobody reports from outside by the move, and it does not concern the execution at a place. -/
def Move.IsBeside (place : Nat) : Move → Prop
  | start other | leaf other _ _ | abort other _ | expire other | cancel other => other ≠ place
  | report _ | wait _ => True
  | settle _ _ => False

/-- Time goes on by the move, or a report is made that is due. -/
def Move.IsPassing : Move → Prop
  | report _ | wait _ => True
  | start _ | leaf _ _ _ | abort _ _ | expire _ | cancel _ | settle _ _ => False

namespace Engine

/-- Something happens beside the execution at a place: another one is started or moves, time goes
on, or a report is made. -/
inductive Beside (place : Nat) (engine : Engine) : Engine → Prop
  | launch (name : String) (machine : Machine) (input : Json) :
      Beside place engine (engine.launch name machine input).1
  | move {m : Move} {engine' : Engine} (hm : m.IsBeside place) (h : engine.move m = some engine') :
      Beside place engine engine'

/-- Something happens around an execution that runs alone: names are given out elsewhere, time goes
on, or a report is made. -/
inductive Rests (engine : Engine) : Engine → Prop
  | named {n : Nat} (h : engine.world.named ≤ n) :
      Rests engine { engine with world := { engine.world with named := n } }
  | passing {m : Move} {engine' : Engine} (hm : m.IsPassing) (h : engine.move m = some engine') :
      Rests engine engine'

end Engine

/-! ## What a move of an execution does to the world -/

namespace Execution

variable {e e' : Execution} {services : Services} {w w' : World}

/-- Neither the execution nor its machine has a deadline. -/
structure Untimed (e : Execution) : Prop where
  machine : e.machine.timeout? = none
  deadline : ∀ run deadline?, e.phase = .running run deadline? → deadline? = none

theorem Untimed.expire? (h : e.Untimed) (w : World) : e.expire? w = none := by
  unfold Execution.expire?
  split
  · next run deadline hphase => cases h.deadline run _ hphase
  · rfl

end Execution

namespace World

variable {w w' : World} {held held' foreign : List String}

/-- **What others do to their tokens is not seen** by one who holds none of them. -/
theorem Alike.aside {alone : World} (h : w.Alike foreign alone) (hserves : w.Serves w' held held')
    (hheld : ∀ token ∈ held, token ∈ foreign)
    (hjobs : ∀ job ∈ w.jobs, ∃ n < w.named, job.token = freshName n)
    (hnames : w'.NamesDistinct) : ∃ issued : List String,
      (∀ token ∈ issued, token = freshName w.named ∧ w.named < w'.named) ∧
      (∀ token ∈ held', token ∈ issued ++ foreign) ∧
      w'.Alike (issued ++ foreign) { alone with named := w'.named } := by
  obtain ⟨added, hadded, haddedHeld⟩ := hserves.minds.jobs
  let issued := if w.named < w'.named then [freshName w.named] else []
  have hissued : ∀ token, token ∈ issued ↔ token = freshName w.named ∧ w.named < w'.named := by
    intro token
    by_cases hlt : w.named < w'.named
    · simp [issued, hlt]
    · simp [issued, hlt]
  refine ⟨issued, fun token hmem => (hissued token).mp hmem, fun token hmem => ?_, ?_⟩
  · rcases hserves.mem_or hmem with hmem | hnew
    · exact List.mem_append_right _ (hheld token hmem)
    · exact List.mem_append_left _ ((hissued token).mpr hnew)
  refine ⟨h.clock.trans hserves.minds.clock.symm, h.origin.trans hserves.minds.origin.symm, rfl,
    fun token htoken => ?_, ?_⟩
  · obtain ⟨hnew, hforeign⟩ := not_or.mp (mt List.mem_append.mpr htoken)
    have hticket : w'.tokens.ticket? token = w.tokens.ticket? token :=
      hserves.ticket?_of_not_mem (fun hmem => hforeign (hheld token hmem))
        fun hlt heq => hnew ((hissued token).mpr ⟨heq, hlt⟩)
    rw [hticket]
    exact h.ticket? token hforeign
  · -- what was left for later is left for others, and there was nothing for what is new
    have hold : w.jobs.filter (fun job => job.token ∉ issued ++ foreign) =
        w.jobs.filter fun job => job.token ∉ foreign := by
      apply List.filter_congr
      intro job hjob
      obtain ⟨n, hn, hname⟩ := hjobs job hjob
      have hnew : job.token ∉ issued := by
        intro hmem
        obtain ⟨heq, hlt⟩ := (hissued _).mp hmem
        exact hnames.freshName_ne hlt hn (hname.symm.trans heq)
      simp [hnew]
    have hnone : added.filter (fun job => job.token ∉ issued ++ foreign) = [] := by
      apply List.filter_eq_nil_iff.mpr
      intro job hjob
      have := List.mem_append_right issued (hheld _ (haddedHeld job hjob))
      rcases List.mem_append.mp this with hmem | hmem <;> simp [hmem]
    rw [hadded, List.filter_append, hold, hnone, List.append_nil]
    exact h.jobs

end World

namespace Execution

variable {e e' : Execution} {services : Services} {w w' : World}

/-- An execution that does something serves its own tokens. -/
theorem act_serves {d : Deed} (he : e.ReportsOwn) (h : d.act services w e = some (w', e')) :
    w.Serves w' e.tokens e'.tokens := by
  cases d with
  | start =>
    obtain ⟨e₁, hstart, heq⟩ := Option.map_eq_some_iff.mp h
    cases heq
    exact .of_books (start?_books hstart) (.refl w)
  | leaf move address =>
    exact ⟨⟨_, moveAt?_books h, fun _ hbatch => token_batch?_mem he hbatch⟩, moveAt?_minds he h⟩
  | abort address =>
    refine .of_books (abort?_books h) ?_
    obtain ⟨run, deadline?, report, -, -, rfl, -⟩ := abort?_eq_some h
    exact .of_eq rfl rfl rfl
  | expire =>
    refine .of_books (expire?_books h) ?_
    obtain ⟨run, deadline?, -, rfl⟩ := expire?_world h
    exact .of_eq rfl rfl rfl

/-- An execution without a deadline does not get one. -/
theorem Untimed.act {d : Deed} (he : e.Untimed) (h : d.act services w e = some (w', e')) :
    e'.Untimed := by
  cases d with
  | start =>
    obtain ⟨e₁, hstart, heq⟩ := Option.map_eq_some_iff.mp h
    cases heq
    obtain ⟨-, started, rfl⟩ := start?_eq_some hstart
    refine ⟨he.machine, fun run deadline? hphase => ?_⟩
    cases hphase
    rw [he.machine]
    rfl
  | leaf move address =>
    obtain ⟨run, deadline?, s, run', hphase, -, -, rfl⟩ := moveAt?_eq_some h
    obtain rfl := he.deadline run deadline? hphase
    rcases withRun_cases (e.inSituation s) none run' with ⟨result, -, heq⟩ | ⟨-, heq⟩
    · rw [heq]
      exact ⟨he.machine, fun _ _ hphase => by cases hphase⟩
    · rw [heq]
      exact ⟨he.machine, fun _ _ hphase => by cases hphase; rfl⟩
  | abort address =>
    obtain ⟨run, deadline?, report, -, -, -, rfl⟩ := abort?_eq_some h
    exact ⟨he.machine, fun _ _ hphase => by cases hphase⟩
  | expire =>
    have h : e.expire? w = some (w', e') := h
    rw [he.expire?] at h
    cases h

/-- **An execution does the same in worlds that are alike.** -/
theorem act_likewise {foreign : List String} (hservices : services.Steady) (he : e.ReportsOwn)
    (huntimed : e.Untimed) (hown : ∀ token ∈ e.tokens, token ∉ foreign)
    (h : w.Alike foreign w') (d : Deed) :
    (d.act services w e = none ∧ d.act services w' e = none) ∨
      ∃ w₁ w₁' e', d.act services w e = some (w₁, e') ∧ d.act services w' e = some (w₁', e') ∧
        w₁.Alike foreign w₁' := by
  cases d with
  | start =>
    cases hphase : e.phase with
    | created =>
      have hdeadline := World.deadlineAfter_congr h.clock
      refine .inr ⟨w, w', _, by simp only [Deed.act, start?, hphase]; rfl, ?_, h⟩
      simp only [Deed.act, start?, hphase, hdeadline]
      rfl
    | running run deadline? => exact .inl (by simp [Deed.act, start?, hphase])
    | finished result => exact .inl (by simp [Deed.act, start?, hphase])
  | leaf move address =>
    cases hphase : e.phase with
    | created => exact .inl (by simp [Deed.act, moveAt?, hphase])
    | finished result => exact .inl (by simp [Deed.act, moveAt?, hphase])
    | running run deadline? =>
      have hrun : Frame.Everywhere Frame.ReportsOwn ⟨e.machine, none, run⟩ := by
        simpa only [ReportsOwn, hphase] using he
      have htokens : ∀ token ∈ run.tokens, token ∉ foreign := by
        simpa only [tokens, hphase] using hown
      have hs : (e.situation w).Alike foreign (e.situation w') := ⟨h, rfl, rfl⟩
      have hmoved : Option.Rel (Situation.Likewise foreign)
          (Run.moveAt ⟨services, e.identity⟩ move e.machine none (e.situation w) address run)
          (Run.moveAt ⟨services, e.identity⟩ move e.machine none (e.situation w') address run) :=
        Run.moveAt_likewise hservices hrun htokens hs
      simp only [Deed.act, moveAt?, hphase, Option.bind_eq_bind]
      rcases Situation.likewise_cases hmoved with ⟨hnone, hnone'⟩ | ⟨s, s', run', heq, heq', hs'⟩
      · rw [hnone, hnone']
        exact .inl ⟨rfl, rfl⟩
      · rw [heq, heq']
        have hsame : e.inSituation s' = e.inSituation s := by
          simp [inSituation, hs'.cancelled, hs'.events]
        refine .inr ⟨s.world, s'.world, _, rfl, ?_, hs'.world⟩
        simp [hsame]
  | abort address =>
    cases hphase : e.phase with
    | created => exact .inl (by simp [Deed.act, abort?, hphase])
    | finished result => exact .inl (by simp [Deed.act, abort?, hphase])
    | running run deadline? =>
      simp only [Deed.act, abort?, hphase]
      cases run.panicAt? address with
      | none => exact .inl ⟨rfl, rfl⟩
      | some report => exact .inr ⟨_, _, _, rfl, rfl, h.release run.tokens⟩
  | expire =>
    exact .inl ⟨huntimed.expire? w, huntimed.expire? w'⟩

end Execution

/-! ## Orderly engines -/

namespace Engine

/-- An engine with steady services whose tokens have owners; reports are left for tokens that were
issued, and all tasks report for their own. -/
structure Orderly (engine : Engine) : Prop where
  steady : engine.services.Steady
  owns : engine.world.Owns engine.tokens
  jobs : ∀ job ∈ engine.world.jobs, ∃ n < engine.world.named, job.token = freshName n
  reports : ∀ e ∈ engine.executions, e.ReportsOwn

variable {engine engine' : Engine} {m : Move}

/-- A move that concerns no execution leaves all of them as they are, and the origin of time. -/
theorem same_of_move (hmove : engine.move m = some engine') (hplace : m.place? = none) :
    engine'.executions = engine.executions ∧ engine'.world.origin = engine.world.origin := by
  cases moves_of_move hmove with
  | report | wait | settle => exact ⟨rfl, rfl⟩
  | start | leaf | abort | expire | cancel => cases hplace

/-- A move that concerns an execution changes it, and serves its tokens. -/
theorem serves_of_move (hreports : ∀ e ∈ engine.executions, e.ReportsOwn)
    (hmove : engine.move m = some engine') {place : Nat} (hplace : m.place? = some place) :
    ∃ e w e', engine.executions[place]? = some e ∧
      engine' = ⟨engine.services, w, engine.executions.set place e'⟩ ∧
      engine.world.Serves w e.tokens e'.tokens := by
  have hdeed : ∀ (d : Deed) (place : Nat), engine.move (d.at place) = some engine' →
      ∃ e w e', engine.executions[place]? = some e ∧
        engine' = ⟨engine.services, w, engine.executions.set place e'⟩ ∧
        engine.world.Serves w e.tokens e'.tokens := by
    intro d place hmove
    rw [move_deed] at hmove
    obtain ⟨e, w, e', he, hact, rfl⟩ := update?_eq_some hmove
    exact ⟨e, w, e', he, rfl, Execution.act_serves (hreports e (List.mem_of_getElem? he)) hact⟩
  cases moves_of_move hmove with
  | start =>
    cases hplace
    exact hdeed .start place hmove
  | @leaf _ move address =>
    cases hplace
    exact hdeed (.leaf move address) place hmove
  | @abort _ address =>
    cases hplace
    exact hdeed (.abort address) place hmove
  | expire =>
    cases hplace
    exact hdeed .expire place hmove
  | cancel he =>
    cases hplace
    exact ⟨_, _, _, he, rfl, .of_books (.of_eq (Nat.le_refl _) rfl) (.refl _)⟩
  | report | wait | settle => cases hplace

/-- What is left for later after a move was so before, or is for a token that was held. -/
theorem jobs_of_move (h : engine.Orderly) (hmove : engine.move m = some engine') :
    ∀ job ∈ engine'.world.jobs, job ∈ engine.world.jobs ∨ job.token ∈ engine.tokens := by
  intro job hjob
  cases hplace : m.place? with
  | some place =>
    obtain ⟨e, w, e', he, rfl, hserves⟩ := serves_of_move h.reports hmove hplace
    obtain ⟨added, hadded, hheld⟩ := hserves.minds.jobs
    have hjob : job ∈ w.jobs := hjob
    rw [hadded] at hjob
    apply (List.mem_append.mp hjob).imp_right
    intro hmem
    exact mem_tokens he (hheld job hmem)
  | none =>
    cases moves_of_move hmove with
    | report => exact .inl (List.mem_of_mem_eraseIdx hjob)
    | wait | settle => exact .inl hjob
    | start | leaf | abort | expire | cancel => cases hplace

/-- All executions go on reporting for their own tokens. -/
theorem reportsOwn_of_move (hservices : engine.services.Steady)
    (hreports : ∀ e ∈ engine.executions, e.ReportsOwn) (hmove : engine.move m = some engine') :
    ∀ e ∈ engine'.executions, e.ReportsOwn := by
  intro e' he'
  obtain ⟨place, hplace⟩ := List.mem_iff_getElem?.mp he'
  obtain ⟨e, he, hchange⟩ := (evolves_of_move hmove).change place e' hplace
  exact (hreports e (List.mem_of_getElem? he)).change hservices hchange

/-- **An engine stays orderly** as long as the names that it gives out are distinct. -/
theorem Orderly.move (h : engine.Orderly) (hmove : engine.move m = some engine')
    (hnames : engine'.world.NamesDistinct) : engine'.Orderly := by
  have hbooks := move_books hmove
  have hevolves := evolves_of_move hmove
  refine ⟨hevolves.services ▸ h.steady, hbooks.owns h.owns hnames, fun job hjob => ?_,
    reportsOwn_of_move h.steady h.reports hmove⟩
  · rcases jobs_of_move h hmove job hjob with hmem | hmem
    · obtain ⟨n, hn, hname⟩ := h.jobs job hmem
      exact ⟨n, Nat.lt_of_lt_of_le hn hbooks.named_le, hname⟩
    · obtain ⟨n, hn, hname⟩ := h.owns.named_of_mem hmem
      exact ⟨n, Nat.lt_of_lt_of_le hn hbooks.named_le, hname⟩

theorem Orderly.launch (h : engine.Orderly) (name : String) (machine : Machine) (input : Json)
    (hnames : (engine.launch name machine input).1.world.NamesDistinct) :
    (engine.launch name machine input).1.Orderly := by
  have hbooks := Simulator.launch_books engine name machine input
  refine ⟨h.steady, hbooks.owns h.owns hnames, fun job hjob => ?_, fun e he => ?_⟩
  · obtain ⟨n, hn, hname⟩ := h.jobs job hjob
    exact ⟨n, Nat.lt_of_lt_of_le hn hbooks.named_le, hname⟩
  · rcases List.mem_append.mp he with he | he
    · exact h.reports e he
    · rw [List.mem_singleton.mp he]
      trivial

/-! ## Mirrors -/

/-- An execution at a place of an engine, and an engine of its own that mirrors it: the tokens of
all others are foreign to it, and beside them the worlds are alike. -/
structure Mirrors (place : Nat) (foreign : List String) (engine alone : Engine) (e : Execution) :
    Prop where
  orderly : engine.Orderly
  untimed : e.Untimed
  services : alone.services = engine.services
  here : engine.executions[place]? = some e
  single : alone.executions = [e]
  world : engine.world.Alike foreign alone.world
  own : ∀ token ∈ e.tokens, token ∉ foreign
  others : ∀ other e', engine.executions[other]? = some e' → other ≠ place →
    ∀ token ∈ e'.tokens, token ∈ foreign
  named : ∀ token ∈ foreign, ∃ n < engine.world.named, token = freshName n

variable {place : Nat} {foreign : List String} {alone alone' : Engine} {e e' : Execution}

namespace Mirrors

theorem reportsOwn (h : engine.Mirrors place foreign alone e) : e.ReportsOwn :=
  h.orderly.reports e (List.mem_of_getElem? h.here)

/-- **A deed is possible in both engines or in neither, and keeps the mirror** as long as names are
distinct. -/
theorem deed (h : engine.Mirrors place foreign alone e) (d : Deed) :
    (engine.move (d.at place) = none ∧ alone.move (d.at 0) = none) ∨
    ∃ engine' alone' e', engine.move (d.at place) = some engine' ∧
      alone.move (d.at 0) = some alone' ∧ alone'.world.named = engine'.world.named ∧
      (engine'.world.NamesDistinct → engine'.Mirrors place foreign alone' e') := by
  have halone : alone.executions[0]? = some e := by rw [h.single]; rfl
  have hlt : place < engine.executions.length := (List.getElem?_eq_some_iff.mp h.here).1
  rcases Execution.act_likewise h.orderly.steady h.reportsOwn h.untimed h.own h.world d with
    ⟨hnone, hnone'⟩ | ⟨w, w', e', hact, hact', halike⟩
  · refine .inl ⟨?_, ?_⟩
    · simp [move_deed, update?, h.here, hnone]
    · simp [move_deed, update?, halone, h.services, hnone']
  · have hmove : engine.move (d.at place) =
        some ⟨engine.services, w, engine.executions.set place e'⟩ := by
      simp [move_deed, update?, h.here, hact]
    have hmove' : alone.move (d.at 0) = some ⟨alone.services, w', [e']⟩ := by
      simp [move_deed, update?, h.services, hact', h.single]
    refine .inr ⟨_, _, e', hmove, hmove', halike.named, fun hnames => ?_⟩
    have hserves := Execution.act_serves h.reportsOwn hact
    refine ⟨h.orderly.move hmove hnames, h.untimed.act hact, h.services, by simp [hlt], rfl, halike,
      fun token htoken hforeign => ?_, fun other e₁ he₁ hother token htoken => ?_,
      fun token htoken => ?_⟩
    · rcases hserves.mem_or htoken with hheld | ⟨hname, hnew⟩
      · exact h.own token hheld hforeign
      -- a new name is none of those that others got before
      · obtain ⟨n, hn, heq⟩ := h.named token hforeign
        have := hnames n engine.world.named (Nat.lt_trans hn hnew) hnew (heq.symm.trans hname)
        omega
    · have he₁ : (engine.executions.set place e')[other]? = some e₁ := he₁
      rw [List.getElem?_set_ne (Ne.symm hother)] at he₁
      exact h.others other e₁ he₁ hother token htoken
    · obtain ⟨n, hn, hname⟩ := h.named token htoken
      exact ⟨n, Nat.lt_of_lt_of_le hn hserves.named_le, hname⟩

/-- The worlds change, and no execution does. -/
theorem around (h : engine.Mirrors place foreign alone e) {w w' : World}
    (horderly : Orderly { engine with world := w }) (hnamed : engine.world.named ≤ w.named)
    (halike : w.Alike foreign w') :
    Mirrors place foreign { engine with world := w } { alone with world := w' } e := by
  refine ⟨horderly, h.untimed, h.services, h.here, h.single, halike, h.own, h.others, ?_⟩
  intro token htoken
  obtain ⟨n, hn, hname⟩ := h.named token htoken
  exact ⟨n, Nat.lt_of_lt_of_le hn hnamed, hname⟩

/-- Time goes on in both engines. -/
theorem wait (h : engine.Mirrors place foreign alone e) (hnames : engine.world.NamesDistinct)
    (time : Nat) :
    (engine.move (.wait time) = none ∧ alone.move (.wait time) = none) ∨
    ∃ engine' alone', engine.move (.wait time) = some engine' ∧
      alone.move (.wait time) = some alone' ∧ engine'.Mirrors place foreign alone' e := by
  by_cases htime : engine.world.clock ≤ time
  · have htime' : alone.world.clock ≤ time := by rwa [h.world.clock]
    have hmove : engine.move (.wait time) =
        some { engine with world := { engine.world with clock := time } } := if_pos htime
    have hmove' : alone.move (.wait time) =
        some { alone with world := { alone.world with clock := time } } := if_pos htime'
    refine .inr ⟨_, _, hmove, hmove', h.around (h.orderly.move hmove hnames) (Nat.le_refl _) ?_⟩
    exact ⟨rfl, h.world.origin, h.world.named, h.world.ticket?, h.world.jobs⟩
  · have htime' : ¬ alone.world.clock ≤ time := by rwa [h.world.clock]
    exact .inl ⟨if_neg htime, if_neg htime'⟩

/-- A report for a token that is not foreign is made in both engines. -/
theorem report (h : engine.Mirrors place foreign alone e) (hnames : engine.world.NamesDistinct)
    {n n' : Nat} {job : Job} (hjob : engine.world.jobs[n]? = some job)
    (hjob' : alone.world.jobs[n']? = some job) (hown : job.token ∉ foreign)
    (hdue : job.due ≤ engine.world.clock) :
    ∃ engine' alone', engine.move (.report n) = some engine' ∧
      alone.move (.report n') = some alone' ∧ engine'.Mirrors place foreign alone' e := by
  have hdue' : job.due ≤ alone.world.clock := by rwa [h.world.clock]
  obtain ⟨-, hsettled⟩ := h.world.settleAll hown job.settlements
  have hmove : engine.move (.report n) = some { engine with world := { engine.world with
      tokens := (engine.world.tokens.settleAll job.token job.settlements).1
      jobs := engine.world.jobs.eraseIdx n } } := by
    simp [Engine.move, hjob, hdue]
  have hmove' : alone.move (.report n') = some { alone with world := { alone.world with
      tokens := (alone.world.tokens.settleAll job.token job.settlements).1
      jobs := alone.world.jobs.eraseIdx n' } } := by
    simp [Engine.move, hjob', hdue']
  refine ⟨_, _, hmove, hmove', h.around (h.orderly.move hmove hnames) (Nat.le_refl _) ?_⟩
  refine ⟨hsettled.clock, hsettled.origin, hsettled.named, hsettled.ticket?, ?_⟩
  have hleft : (job :: alone.world.jobs.eraseIdx n').Perm
      (job :: (engine.world.jobs.eraseIdx n).filter fun job => job.token ∉ foreign) := by
    refine (perm_cons_eraseIdx hjob').symm.trans (h.world.jobs.trans ?_)
    have hfilter := (perm_cons_eraseIdx hjob).filter fun job => job.token ∉ foreign
    rwa [List.filter_cons_of_pos (by simpa using hown)] at hfilter
  exact hleft.cons_inv

/-- A report for a foreign token is not seen. -/
theorem report_foreign (h : engine.Mirrors place foreign alone e)
    (hnames : engine.world.NamesDistinct) {n : Nat} {job : Job}
    (hjob : engine.world.jobs[n]? = some job) (hforeign : job.token ∈ foreign)
    (hmove : engine.move (.report n) = some engine') : engine'.Mirrors place foreign alone e := by
  cases moves_of_move hmove with
  | report hjob' hdue =>
    obtain rfl := Option.some.inj (hjob.symm.trans hjob')
    apply h.around (h.orderly.move hmove hnames) (Nat.le_refl _)
    refine ⟨h.world.clock, h.world.origin, h.world.named, fun token htoken => ?_, ?_⟩
    · have hne : job.token ≠ token := by
        rintro rfl
        exact htoken hforeign
      rw [h.world.ticket? token htoken]
      exact (Tokens.ticket?_settleAll_of_ne _ hne _).symm
    · apply h.world.jobs.trans
      have hfilter := (perm_cons_eraseIdx hjob).filter fun job => job.token ∉ foreign
      rwa [List.filter_cons_of_neg (by simpa using hforeign)] at hfilter

/-- What others do leaves the mirror as it is; names may have been given out. -/
theorem others_moved (h : engine.Mirrors place foreign alone e) {other : Nat}
    (hother : other ≠ place) (hplace : m.place? = some other)
    (hmove : engine.move m = some engine') (hnames : engine'.world.NamesDistinct) :
    ∃ foreign', engine'.Mirrors place foreign'
      { alone with world := { alone.world with named := engine'.world.named } } e := by
  have horderly := h.orderly.move hmove hnames
  obtain ⟨e₁, w, e₁', he₁, rfl, hserves⟩ := serves_of_move h.orderly.reports hmove hplace
  obtain ⟨issued, hissued, hheld', halike⟩ :=
    h.world.aside hserves (h.others other e₁ he₁ hother) h.orderly.jobs hnames
  have hlt : other < engine.executions.length := (List.getElem?_eq_some_iff.mp he₁).1
  refine ⟨issued ++ foreign, horderly, h.untimed, h.services, ?_, h.single, halike, ?_, ?_, ?_⟩
  · show (engine.executions.set other e₁')[place]? = some e
    rw [List.getElem?_set_ne hother]
    exact h.here
  · intro token htoken hmem
    rcases List.mem_append.mp hmem with hnew | hforeign
    · obtain ⟨n, hn, hname⟩ := h.orderly.owns.named_of_mem (mem_tokens h.here htoken)
      obtain ⟨heq, hlt⟩ := hissued token hnew
      exact hnames.freshName_ne hlt hn (hname.symm.trans heq)
    · exact h.own token htoken hforeign
  · intro place' e' he' hne token htoken
    have he' : (engine.executions.set other e₁')[place']? = some e' := he'
    by_cases heq : other = place'
    · subst heq
      obtain rfl : e₁' = e' := by simpa [List.getElem?_set, hlt] using he'
      exact hheld' token htoken
    · rw [List.getElem?_set_ne heq] at he'
      exact List.mem_append_right _ (h.others place' e' he' hne token htoken)
  · intro token htoken
    rcases List.mem_append.mp htoken with hnew | hforeign
    · obtain ⟨heq, hlt⟩ := hissued token hnew
      exact ⟨_, hlt, heq⟩
    · obtain ⟨n, hn, hname⟩ := h.named token hforeign
      exact ⟨n, Nat.lt_of_lt_of_le hn hserves.named_le, hname⟩

theorem launched (h : engine.Mirrors place foreign alone e) (name : String) (machine : Machine)
    (input : Json) (hnames : (engine.launch name machine input).1.world.NamesDistinct) :
    (engine.launch name machine input).1.Mirrors place foreign
      { alone with world := { alone.world with named := engine.world.named + 1 } } e := by
  have hlt : place < engine.executions.length := (List.getElem?_eq_some_iff.mp h.here).1
  refine ⟨h.orderly.launch name machine input hnames, h.untimed, h.services, ?_, h.single,
    ⟨h.world.clock, h.world.origin, rfl, h.world.ticket?, h.world.jobs⟩, h.own, ?_, ?_⟩
  · show (engine.executions ++ [_])[place]? = some e
    rw [List.getElem?_append_left hlt]
    exact h.here
  · intro other e' he' hother token htoken
    rcases Nat.lt_or_ge other engine.executions.length with hold | hnew
    · have he' : (engine.executions ++ [_])[other]? = some e' := he'
      rw [List.getElem?_append_left hold] at he'
      exact h.others other e' he' hother token htoken
    · have he' : (engine.executions ++ [_])[other]? = some e' := he'
      rw [List.getElem?_append_right hnew] at he'
      have hcreated := List.mem_of_getElem? he'
      rw [List.mem_singleton.mp hcreated] at htoken
      cases htoken
  · intro token htoken
    obtain ⟨n, hn, hname⟩ := h.named token htoken
    exact ⟨n, Nat.lt_succ_of_lt hn, hname⟩

/-- **Whatever happens beside the execution, the engine of its own rests.** -/
theorem beside (h : engine.Mirrors place foreign alone e) (hbeside : engine.Beside place engine')
    (hnames : engine'.world.NamesDistinct) :
    ∃ foreign' alone', alone.Rests alone' ∧ engine'.Mirrors place foreign' alone' e := by
  have hsame : alone.Rests alone := .named (Nat.le_refl _)
  cases hbeside with
  | launch name machine input =>
    refine ⟨foreign, _, .named ?_, h.launched name machine input hnames⟩
    rw [h.world.named]
    exact Nat.le_succ _
  | @move m _ hm hmove =>
    cases hplace : m.place? with
    | some other =>
      have hother : other ≠ place := by
        cases m <;> cases hplace <;> exact hm
      obtain ⟨foreign', hmirrors⟩ := h.others_moved hother hplace hmove hnames
      refine ⟨foreign', _, .named ?_, hmirrors⟩
      rw [h.world.named]
      exact (move_books hmove).named_le
    | none =>
      have hnames₀ : engine.world.NamesDistinct := hnames.mono (move_books hmove).named_le
      cases m with
      | report n =>
        obtain ⟨job, hjob, hdue⟩ := due_of_report hmove
        by_cases hforeign : job.token ∈ foreign
        · exact ⟨foreign, alone, hsame, h.report_foreign hnames₀ hjob hforeign hmove⟩
        · have hmem : job ∈ alone.world.jobs :=
            h.world.jobs.symm.subset (List.mem_filter.mpr ⟨List.mem_of_getElem? hjob, by simpa⟩)
          obtain ⟨n', hjob'⟩ := List.mem_iff_getElem?.mp hmem
          obtain ⟨engine₁, alone₁, hmove₁, hmove₁', hmirrors⟩ :=
            h.report hnames₀ hjob hjob' hforeign hdue
          obtain rfl := Option.some.inj (hmove.symm.trans hmove₁)
          exact ⟨foreign, alone₁, .passing (m := .report n') trivial hmove₁', hmirrors⟩
      | wait time =>
        rcases h.wait hnames₀ time with ⟨hnone, -⟩ | ⟨engine₁, alone₁, hmove₁, hmove₁', hmirrors⟩
        · rw [hnone] at hmove
          cases hmove
        · obtain rfl := Option.some.inj (hmove.symm.trans hmove₁)
          exact ⟨foreign, alone₁, .passing (m := .wait time) trivial hmove₁', hmirrors⟩
      | settle token settlement => exact hm.elim
      | start other => cases hplace
      | leaf other move address => cases hplace
      | abort other address => cases hplace
      | expire other => cases hplace
      | cancel other => cases hplace

/-- What passes in the engine of its own can pass in the other. -/
theorem passing (h : engine.Mirrors place foreign alone e) (hnames : engine.world.NamesDistinct)
    (hm : m.IsPassing) (hmove : alone.move m = some alone') :
    ∃ m' engine', m'.IsPassing ∧ engine.move m' = some engine' ∧
      engine'.Mirrors place foreign alone' e := by
  cases m with
  | report n' =>
    obtain ⟨job, hjob', hdue⟩ := due_of_report hmove
    rw [h.world.clock] at hdue
    obtain ⟨hmem, hown⟩ := List.mem_filter.mp (h.world.jobs.subset (List.mem_of_getElem? hjob'))
    obtain ⟨n, hjob⟩ := List.mem_iff_getElem?.mp hmem
    obtain ⟨engine₁, alone₁, hmove₁, hmove₁', hmirrors⟩ :=
      h.report hnames hjob hjob' (by simpa using hown) hdue
    obtain rfl := Option.some.inj (hmove.symm.trans hmove₁')
    exact ⟨.report n, engine₁, trivial, hmove₁, hmirrors⟩
  | wait time =>
    rcases h.wait hnames time with ⟨-, hnone⟩ | ⟨engine₁, alone₁, hmove₁, hmove₁', hmirrors⟩
    · rw [hnone] at hmove
      cases hmove
    · obtain rfl := Option.some.inj (hmove.symm.trans hmove₁')
      exact ⟨.wait time, engine₁, trivial, hmove₁, hmirrors⟩
  | start other => exact hm.elim
  | leaf other move address => exact hm.elim
  | abort other address => exact hm.elim
  | expire other => exact hm.elim
  | cancel other => exact hm.elim
  | settle token settlement => exact hm.elim

end Mirrors

end Engine

end StateFlow
