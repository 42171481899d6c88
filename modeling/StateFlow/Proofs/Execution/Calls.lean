import StateFlow.Proofs.Execution.Change
import StateFlow.Proofs.Execution.Moves

/-!
# Which calls a move makes

Only the entry into a Task state calls a function, once at most, and the function is the one that is
bound to the state under the name that the execution knows its machine by.

## Main definitions

* `Situation.CallsOnly P s s'`: from `s` to `s'` at most one call was made, of a binding in `P`
* `Execution.Enters`: an execution is about to enter a Task state

## Main results

* `Run.moveLeaf_calls`, `Engine.move_leaf_calls`: the calls of a move
* `Engine.move_calls`: only a leaf makes calls
-/

namespace StateFlow

/-- At most one call was made, and that of a certain binding. -/
def Situation.CallsOnly (P : Binding → Prop) (s s' : Situation) : Prop :=
  s'.world.calls = s.world.calls ∨
    ∃ call, P call.binding ∧ s'.world.calls = s.world.calls ++ [call]

namespace Situation.CallsOnly

variable {P : Binding → Prop} {s s' s'' : Situation}

theorem of_eq (h : s'.world.calls = s.world.calls) : s.CallsOnly P s' := .inl h

theorem of_eq_left (h : s'.world.calls = s.world.calls) (hs : s'.CallsOnly P s'') :
    s.CallsOnly P s'' := by
  unfold CallsOnly at hs ⊢
  rwa [h] at hs

end Situation.CallsOnly

theorem callFunction_calls (scope : Scope) (s : Situation) (binding : Binding)
    (input context : Json) :
    s.CallsOnly (· = binding) (callFunction scope s binding input context).1 := by
  unfold callFunction
  split
  · exact .of_eq rfl
  · exact .inr ⟨_, rfl, rfl⟩

namespace TaskState

variable (task : TaskState) (scope : Scope) (s : Situation) (name : String)

theorem beginPlain_calls (input effective context : Json) (binding : Binding) :
    s.CallsOnly (· = binding)
      (task.beginPlain scope s name input effective context binding).1 := by
  unfold beginPlain
  split
  · exact .of_eq rfl
  · exact callFunction_calls scope s binding _ context

theorem beginCallback_calls (input effective context : Json) (binding : Binding) :
    s.CallsOnly (· = binding)
      (task.beginCallback scope s name input effective context binding).1 := by
  unfold beginCallback
  dsimp only
  split
  · exact .of_eq rfl
  · exact .of_eq_left rfl (callFunction_calls scope _ binding _ _)

/-- Beginning a task calls the function that is bound to its state. -/
theorem begin_calls (input context : Json) :
    s.CallsOnly
      (fun b => scope.services.bindings.lookup? scope.identity.machineName name = some b)
      (task.begin scope s name input context).1 := by
  unfold begin
  split
  · exact .of_eq rfl
  · dsimp only
    split
    · exact .of_eq rfl
    · next binding hbinding =>
      have hmono : ∀ s', s.CallsOnly (· = binding) s' → s.CallsOnly
          (fun b => scope.services.bindings.lookup? scope.identity.machineName name = some b)
          s' := by
        rintro s' (h | ⟨call, rfl, h⟩)
        · exact .inl h
        · exact .inr ⟨call, hbinding, h⟩
      split
      · exact hmono _ (task.beginCallback_calls scope s name input _ context binding)
      · exact hmono _ (task.beginPlain_calls scope s name input _ context binding)

end TaskState

theorem MapSettings.begin_calls (settings : MapSettings) (machine? : Option Machine)
    (scope : Scope) (s : Situation) (name : String) (input context : Json) :
    (settings.begin machine? scope s name input context).1.world.calls = s.world.calls := by
  unfold begin
  split
  · rfl
  · split
    · rfl
    · dsimp only
      obtain ⟨tokens, htokens⟩ := MapFrame.settle_fst _ s name input [] _ _
      rw [htokens, Situation.release_calls]

namespace Run

variable {scope : Scope} {move : LeafMove} {m : Machine} {item? : Option Nat} {s s' : Situation}
  {run new : Run}

/-- Entering a state calls the function bound to it, if it is a Task state. -/
theorem Enters.calls {name : String} {input : Json}
    (h : Enters scope m item? s name input s' new) :
    s.CallsOnly (fun b => (∃ task, m.state? name = some (.task task)) ∧
      scope.services.bindings.lookup? scope.identity.machineName name = some b) s' := by
  cases h with
  | cancelled _ => exact .of_eq rfl
  | unknown _ _ => exact .of_eq rfl
  | refused _ _ _ => exact .of_eq rfl
  | @begun state _ _ _ hs _ h =>
    obtain rfl : _ = s' := congrArg Prod.fst h
    cases state with
    | task task =>
      rcases task.begin_calls scope (s.emit (.stateEntered name .task input item?)) name input
        (Context.ofState scope.identity name s.world.now) with hcalls | ⟨call, hcall, hcalls⟩
      · exact .inl hcalls
      · exact .inr ⟨call, ⟨⟨task, hs⟩, hcall⟩, hcalls⟩
    | wait wait =>
      refine .of_eq ?_
      dsimp only [State.begin, WaitState.begin]
      split <;> rfl
    | map settings itemProcessor? iterator? =>
      exact .of_eq (settings.begin_calls _ scope _ name input _)
    | pass p => exact .of_eq rfl
    | choice c => exact .of_eq rfl
    | fail f => exact .of_eq rfl
    | succeed e => exact .of_eq rfl
    | parallel p => exact .of_eq rfl

/-- A leaf calls a function only where it enters a Task state. -/
theorem moveLeaf_calls (h : moveLeaf scope move m item? s run = some (s', new)) :
    s.CallsOnly (fun b => ∃ name input task, run = .entering name input ∧
      m.state? name = some (.task task) ∧
      scope.services.bindings.lookup? scope.identity.machineName name = some b) s' := by
  cases run with
  | entering name input =>
    cases moves_of_moveLeaf h with
    | entering h =>
      rcases h.calls with hcalls | ⟨call, ⟨⟨task, hs⟩, hb⟩, hcalls⟩
      · exact .inl hcalls
      · exact .inr ⟨call, ⟨name, input, task, rfl, hs, hb⟩, hcalls⟩
  | leaving name departure =>
    cases moves_of_moveLeaf h with
    | leaving h => cases h <;> exact .of_eq rfl
  | working name input work => exact .of_eq (moves_of_moveLeaf h).keeps.calls
  | ended result => cases moves_of_moveLeaf h

end Run

/-! ## Calls of executions -/

namespace Execution

/-- An execution is about to enter a Task state, at some level. -/
def Enters (e : Execution) (name : String) (task : TaskState) : Prop :=
  ∃ root address leaf input, e.frame? = some root ∧ root.at? address = some leaf ∧
    leaf.run = .entering name input ∧ leaf.machine.state? name = some (.task task)

/-- A move of an execution calls only what is bound to a Task state that it enters. -/
theorem moveAt?_calls {e e' : Execution} {services : Services} {w w' : World}
    {move : Run.LeafMove} {address : List Nat}
    (h : e.moveAt? services w move address = some (w', e')) :
    w'.calls = w.calls ∨ ∃ name task call, e.Enters name task ∧
      services.bindings.lookup? e.identity.machineName name = some call.binding ∧
      w'.calls = w.calls ++ [call] := by
  obtain ⟨run, deadline?, s, run', hphase, hmove, rfl, -⟩ := moveAt?_eq_some h
  obtain ⟨leaf, s₁, new, hat, hleaf, tokens, rfl⟩ := Run.moveAt_leaf hmove
  rcases Run.moveLeaf_calls hleaf with hcalls | ⟨call, ⟨name, input, task, hrun, hs, hb⟩, hcalls⟩
  · exact .inl hcalls
  · exact .inr ⟨name, task, call,
      ⟨_, address, leaf, input, by simp [frame?, hphase], hat, hrun, hs⟩, hb, hcalls⟩

end Execution

/-- A leaf move of an engine calls only what is bound to a Task state that its execution enters. -/
theorem Engine.move_leaf_calls {engine engine' : Engine} {place : Nat} {e : Execution}
    {move : Run.LeafMove} {address : List Nat}
    (h : engine.move (.leaf place move address) = some engine')
    (he : engine.executions[place]? = some e) :
    engine'.world.calls = engine.world.calls ∨ ∃ name task call, e.Enters name task ∧
      engine.services.bindings.lookup? e.identity.machineName name = some call.binding ∧
      engine'.world.calls = engine.world.calls ++ [call] := by
  cases moves_of_move h with
  | @leaf _ _ _ e₀ _ _ he₀ hmove =>
    obtain rfl : e = e₀ := Option.some.inj (he.symm.trans he₀)
    exact Execution.moveAt?_calls hmove

/-- A move that is no move of a leaf calls nothing. -/
theorem Engine.move_calls {engine engine' : Engine} {move : Move}
    (h : engine.move move = some engine') (hleaf : ∀ place, move.leafAt? place = none) :
    engine'.world.calls = engine.world.calls := by
  cases moves_of_move h with
  | @leaf place move address =>
    have hself : (Move.leaf place move address).leafAt? place = some (move, address) := if_pos rfl
    rw [hleaf place] at hself
    cases hself
  | abort _ habort =>
    obtain ⟨run, deadline?, report, -, -, rfl, -⟩ := Execution.abort?_eq_some habort
    rfl
  | expire _ hexpire =>
    obtain ⟨run, deadline?, -, rfl⟩ := Execution.expire?_world hexpire
    rfl
  | start | cancel | report | wait | settle => rfl

end StateFlow
