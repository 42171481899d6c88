import StateFlow.Proofs.Execution.Alone

/-!
# Executions that end

An execution can end when it comes to its end by what it does itself, while time passes and reports
that were left for later are made (`Engine.CanEnd`).  It ends in whatever order things happen when
its deeds cannot go on forever and it is never stuck for good: until it has ended, it can do
something, if need be later (`Engine.Ends`).  What happens around it is a parameter, so that the
notions are the same for an execution among others and for one that runs alone; what they say of an
execution that runs alone they say of it among others (`Engine.Mirrors.canEnd`,
`Engine.Mirrors.ends`).

## Main definitions

* `Engine.CanEnd place`: the execution at a place can be brought to its end
* `Engine.Can place`: the execution at a place can do something, if need be later
* `Engine.Ends around place`: the execution at a place ends in whatever order things happen
* `Engine.RunsAlone`: the runs of an engine with one execution

## Main results

* `Engine.Mirrors.canEnd`, `Engine.Mirrors.ends`: what would end alone ends among others
* `Engine.Ends.of_runsAlone`: an execution that would end from its start still would later
-/

namespace StateFlow

namespace Engine

/-! ## Ending -/

/-- The execution at a place can do something, if need be after time has passed and reports that
were left for later have been made. -/
def Can (place : Nat) (engine : Engine) : Prop :=
  ∃ moves engine', (∀ m ∈ moves, Move.IsPassing m) ∧ engine.run moves = some engine' ∧
    ∃ d : Deed, (engine'.move (d.at place)).isSome

/-- The execution at a place comes to its end by its own deeds, while time passes and reports that
were left for later are made. -/
inductive CanEnd (place : Nat) : Engine → Prop
  | ended {engine : Engine} (h : (engine.result? place).isSome) : CanEnd place engine
  | passing {engine engine' : Engine} {m : Move} (hm : m.IsPassing)
      (hmove : engine.move m = some engine') (h : CanEnd place engine') : CanEnd place engine
  | deed {engine engine' : Engine} {d : Deed} (hmove : engine.move (d.at place) = some engine')
      (hnames : engine'.world.NamesDistinct) (h : CanEnd place engine') : CanEnd place engine

/-- What happens around an execution, step by step, while all names are distinct. -/
def Around (around : Engine → Engine → Prop) : Engine → Engine → Prop :=
  Relation.ReflTransGen fun engine engine' => around engine engine' ∧ engine'.world.NamesDistinct

/-- The execution at a place ends: it has ended, or whatever happens around it, it can do something,
and whatever it does, it ends. -/
inductive Ends (around : Engine → Engine → Prop) (place : Nat) : Engine → Prop
  | ended {engine : Engine} (h : (engine.result? place).isSome) : Ends around place engine
  | going {engine : Engine}
      (can : ∀ engine', Around around engine engine' → engine'.Can place)
      (deed : ∀ engine₁ d engine₂, Around around engine engine₁ →
        engine₁.move (Deed.at place d) = some engine₂ → engine₂.world.NamesDistinct →
        Ends around place engine₂) : Ends around place engine

variable {engine engine' alone alone' : Engine} {place : Nat} {foreign : List String}
  {e : Execution}

/-- An execution that has ended does nothing any more. -/
theorem move_deed_of_result? (h : (engine.result? place).isSome) (d : Deed) :
    engine.move (d.at place) = none := by
  obtain ⟨result, hresult⟩ := Option.isSome_iff_exists.mp h
  obtain ⟨e, he, hresult⟩ := Option.bind_eq_some_iff.mp hresult
  have hphase := Execution.result?_eq_some_iff.mp hresult
  have hact : d.act engine.services engine.world e = none := by
    cases d with
    | start => simp [Deed.act, Execution.start?, hphase]
    | leaf move address => simp [Deed.act, Execution.moveAt?, hphase]
    | abort address => simp [Deed.act, Execution.abort?, hphase]
    | expire => simp [Deed.act, Execution.expire?, hphase]
  simp [move_deed, update?, he, hact]

/-- What passes gives out no names and leaves the executions alone. -/
theorem of_isPassing {m : Move} (hm : m.IsPassing) (hmove : engine.move m = some engine') :
    engine'.world.named = engine.world.named ∧ engine'.executions = engine.executions := by
  cases moves_of_move hmove with
  | report | wait => exact ⟨rfl, rfl⟩
  | start | leaf | abort | expire | cancel | settle => exact hm.elim

/-! ## Ending among others -/

namespace Mirrors

theorem namesDistinct (h : engine.Mirrors place foreign alone e)
    (hnames : engine.world.NamesDistinct) : alone.world.NamesDistinct :=
  hnames.mono (Nat.le_of_eq h.world.named)

/-- **An execution that can end alone can end among others.** -/
theorem canEnd (h : engine.Mirrors place foreign alone e) (hnames : engine.world.NamesDistinct)
    (hcan : alone.CanEnd 0) : engine.CanEnd place := by
  induction hcan generalizing engine foreign e with
  | ended hended =>
    apply CanEnd.ended
    rw [result?, h.here]
    simpa [result?, h.single] using hended
  | passing hm hmove _ ih =>
    obtain ⟨m', engine₁, hm', hmove', hmirrors⟩ := h.passing hnames hm hmove
    refine .passing hm' hmove' (ih hmirrors ?_)
    exact hnames.mono (Nat.le_of_eq (of_isPassing hm' hmove').1)
  | @deed alone alone₁ d hmove hnames₁ _ ih =>
    rcases h.deed d with ⟨-, hnone⟩ | ⟨engine₁, alone₁', e', hmove₁, hmove', halike, hmirrors⟩
    · rw [hnone] at hmove
      cases hmove
    · obtain rfl := Option.some.inj (hmove.symm.trans hmove')
      have hnames₂ : engine₁.world.NamesDistinct :=
        hnames₁.mono (Nat.le_of_eq halike.symm)
      exact .deed hmove₁ hnames₂ (ih (hmirrors hnames₂) hnames₂)

/-- Whatever happens beside the execution for a while, the engine of its own rests. -/
theorem around_beside (h : engine.Mirrors place foreign alone e)
    (hnames : engine.world.NamesDistinct) (haround : Around (Beside place) engine engine') :
    engine'.world.NamesDistinct ∧ ∃ foreign' alone', Around Rests alone alone' ∧
      engine'.Mirrors place foreign' alone' e := by
  induction haround with
  | refl => exact ⟨hnames, foreign, alone, .refl, h⟩
  | tail _ hstep ih =>
    obtain ⟨-, foreign₁, alone₁, haround₁, hmirrors₁⟩ := ih
    obtain ⟨foreign₂, alone₂, hrests, hmirrors₂⟩ := hmirrors₁.beside hstep.1 hstep.2
    exact ⟨hstep.2, foreign₂, alone₂, haround₁.tail ⟨hrests, hmirrors₂.namesDistinct hstep.2⟩,
      hmirrors₂⟩

/-- What the execution can do in the engine of its own, it can do among others. -/
theorem can (h : engine.Mirrors place foreign alone e) (hnames : engine.world.NamesDistinct)
    (hcan : alone.Can 0) : engine.Can place := by
  obtain ⟨moves, alone', hmoves, hrun, d, hd⟩ := hcan
  induction moves generalizing engine alone with
  | nil =>
    obtain rfl : alone = alone' := Option.some.inj hrun
    refine ⟨[], engine, nofun, rfl, d, ?_⟩
    rcases h.deed d with ⟨-, hnone⟩ | ⟨engine', _, _, hmove, -⟩
    · rw [hnone] at hd
      cases hd
    · rw [hmove]
      rfl
  | cons m moves ih =>
    obtain ⟨alone₁, hmove, hrun⟩ := Option.bind_eq_some_iff.mp hrun
    obtain ⟨m', engine₁, hm', hmove', hmirrors⟩ :=
      h.passing hnames (hmoves m List.mem_cons_self) hmove
    have hnames₁ : engine₁.world.NamesDistinct :=
      hnames.mono (Nat.le_of_eq (of_isPassing hm' hmove').1)
    obtain ⟨moves', engine₂, hmoves', hrun', hdeed⟩ :=
      ih hmirrors hnames₁ (fun m hm => hmoves m (List.mem_cons_of_mem _ hm)) hrun
    refine ⟨m' :: moves', engine₂, ?_, ?_, hdeed⟩
    · rintro m (_ | ⟨_, hm⟩)
      · exact hm'
      · exact hmoves' m hm
    · rw [run, hmove']
      exact hrun'

/-- **An execution that would end alone ends among others.** -/
theorem ends (h : engine.Mirrors place foreign alone e) (hnames : engine.world.NamesDistinct)
    (hends : alone.Ends Rests 0) : engine.Ends (Beside place) place := by
  induction hends generalizing engine foreign e with
  | @ended alone hended =>
    apply Ends.ended
    rw [result?, h.here]
    simpa [result?, h.single] using hended
  | @going alone hcan _ ih =>
    refine .going (fun engine₁ haround => ?_) fun engine₁ d engine₂ haround hmove hnames₂ => ?_
    · obtain ⟨hnames₁, foreign₁, alone₁, haround', hmirrors₁⟩ := h.around_beside hnames haround
      exact hmirrors₁.can hnames₁ (hcan alone₁ haround')
    · obtain ⟨hnames₁, foreign₁, alone₁, haround', hmirrors₁⟩ := h.around_beside hnames haround
      rcases hmirrors₁.deed d with ⟨hnone, -⟩ | ⟨engine', alone₂, e', hmove₁, hmove', -, hmirrors₂⟩
      · rw [hnone] at hmove
        cases hmove
      · obtain rfl := Option.some.inj (hmove.symm.trans hmove₁)
        have hmirrors₂ := hmirrors₂ hnames₂
        exact ih alone₁ d alone₂ haround' hmove' (hmirrors₂.namesDistinct hnames₂) hmirrors₂
          hnames₂

end Mirrors

/-! ## Runs of one execution -/

/-- What an engine with one execution comes to: the execution does something, or something happens
around it. -/
def RunsAlone : Engine → Engine → Prop :=
  Relation.ReflTransGen fun alone alone' => (alone.Rests alone' ∨
    ∃ d : Deed, alone.move (d.at 0) = some alone') ∧ alone'.world.NamesDistinct

theorem Rests.executions (h : alone.Rests alone') : alone'.executions = alone.executions := by
  cases h with
  | named _ => rfl
  | passing hm hmove => exact (of_isPassing hm hmove).2

theorem Rests.services (h : alone.Rests alone') : alone'.services = alone.services := by
  cases h with
  | named _ => rfl
  | passing _ hmove => exact (evolves_of_move hmove).services

/-- An execution that would end still would, later in its run. -/
theorem Ends.of_runsAlone (h : alone.Ends Rests 0) (hruns : alone.RunsAlone alone') :
    alone'.Ends Rests 0 := by
  induction hruns with
  | refl => exact h
  | @tail alone₁ alone₂ _ hstep ih =>
    obtain ⟨hstep, hnames⟩ := hstep
    rcases hstep with hrests | ⟨d, hmove⟩
    · have haround : Around Rests alone₁ alone₂ := .single ⟨hrests, hnames⟩
      cases ih with
      | ended hended =>
        apply Ends.ended
        rw [result?, hrests.executions]
        exact hended
      | going hcan hdeed =>
        exact .going (fun alone₃ hmore => hcan alone₃ (haround.trans hmore))
          fun alone₃ d alone₄ hmore => hdeed alone₃ d alone₄ (haround.trans hmore)
    · cases ih with
      | ended hended =>
        rw [move_deed_of_result? hended d] at hmove
        cases hmove
      | going _ hdeed => exact hdeed alone₁ d alone₂ .refl hmove hnames

end Engine

end StateFlow
