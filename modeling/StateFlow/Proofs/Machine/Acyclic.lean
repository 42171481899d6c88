import Mathlib.Data.Set.Finite.Basic
import StateFlow.Proofs.Machine.Levels

/-!
# Machines without cycles

A state of a level is followed by the states that it may lead to.  Where no way through a level
comes back to where it was, the states of the level stand in a finite order, in which every
transition goes on; and since the machine of a Map state is smaller than the one around it, so does
every step from a level to one inside it.

## Main definitions

* `Machine.Follows`, `Machine.Acyclic`: the transitions of a level, and that no level has a cycle
* `Machine.levelAlong?`: the level that the names of Map states lead to

## Main results

* `acc_of_acyclic`: what has no cycles and starts from finitely many places only has an end
* `Machine.Acyclic.acc_follows`: the states of a level stand in a finite order
* `Machine.sizeOf_lt_of_mem`: a level is smaller than the one that it stands in
-/

namespace StateFlow

/-- What has no cycles and starts from finitely many places only has an end. -/
theorem acc_of_acyclic {α : Type} {r : α → α → Prop} {sources : List α}
    (hsources : ∀ a b, r a b → a ∈ sources) (hacyclic : ∀ a, ¬ Relation.TransGen r a a) (a : α) :
    Acc (fun b a => r a b) a := by
  have hfinite : Finite { a // a ∈ sources } := (List.finite_toSet sources).to_subtype
  have hirrefl : Std.Irrefl fun b a : { a // a ∈ sources } => Relation.TransGen r a.1 b.1 :=
    ⟨fun a => hacyclic a.1⟩
  have htrans : IsTrans { a // a ∈ sources } fun b a => Relation.TransGen r a.1 b.1 :=
    ⟨fun _ _ _ hab hbc => hbc.trans hab⟩
  have hwf : WellFounded fun b a : { a // a ∈ sources } => Relation.TransGen r a.1 b.1 :=
    Finite.wellFounded_of_trans_of_irrefl _
  -- what does not start from one of the places does not lead anywhere
  have hnot : ∀ b, b ∉ sources → Acc (fun b a => r a b) b := fun b hb =>
    ⟨b, fun c hc => (hb (hsources b c hc)).elim⟩
  have hacc : ∀ a : { a // a ∈ sources }, Acc (fun b a => r a b) a.1 := by
    intro a
    induction a using hwf.induction with
    | _ a ih =>
      refine ⟨a.1, fun b hb => ?_⟩
      by_cases hmem : b ∈ sources
      · exact ih ⟨b, hmem⟩ (.single hb)
      · exact hnot b hmem
  by_cases hmem : a ∈ sources
  · exact hacc ⟨a, hmem⟩
  · exact hnot a hmem

namespace Machine

/-- The machine of a Map state is smaller than the one that it stands in. -/
theorem sizeOf_lt_of_mem {l inner : Machine} {name : String} {settings : MapSettings}
    {itemProcessor? iterator? : Option Machine}
    (hs : (name, State.map settings itemProcessor? iterator?) ∈ l.states)
    (hp : processor? itemProcessor? iterator? = some inner) : sizeOf inner < sizeOf l := by
  have hmem := List.sizeOf_lt_of_mem hs
  obtain ⟨comment?, startAt, states, timeout?⟩ := l
  simp only [Machine.mk.sizeOf_spec, Prod.mk.sizeOf_spec, State.map.sizeOf_spec] at hmem ⊢
  cases itemProcessor? with
  | some m =>
    obtain rfl : m = inner := Option.some.inj hp
    simp only [Option.some.sizeOf_spec] at hmem
    omega
  | none =>
    cases iterator? with
    | some m =>
      obtain rfl : m = inner := Option.some.inj hp
      simp only [Option.some.sizeOf_spec] at hmem
      omega
    | none => cases hp

/-- A state of a level may lead to another one. -/
def Follows (m : Machine) (name next : String) : Prop :=
  ∃ state, m.state? name = some state ∧ next ∈ state.targets

/-- No level has a cycle. -/
def Acyclic (m : Machine) : Prop :=
  ∀ l, m.HasLevel l → ∀ name, ¬ Relation.TransGen l.Follows name name

/-- The level that the names of Map states lead to, the outermost first. -/
def levelAlong? : List String → Machine → Option Machine
  | [], m => some m
  | name :: names, m =>
    match m.state? name with
    | some (.map _ itemProcessor? iterator?) =>
      (processor? itemProcessor? iterator?).bind (levelAlong? names)
    | _ => none

variable {m l : Machine}

/-- The states of a level stand in a finite order. -/
theorem Acyclic.acc_follows (h : m.Acyclic) (hl : m.HasLevel l) (name : String) :
    Acc (fun next name => l.Follows name next) name := by
  refine @acc_of_acyclic _ _ (Entries.keys l.states) ?_ (h l hl) name
  rintro source next ⟨state, hs, -⟩
  rw [Entries.mem_keys_iff, ← state?, hs]
  rfl

/-- A level whose states are listed in the order in which they follow has no cycle. -/
theorem not_follows_of_listed
    (h : ∀ e ∈ l.states, ∀ next ∈ e.2.targets,
      (Entries.keys l.states).idxOf e.1 < (Entries.keys l.states).idxOf next) (name : String) :
    ¬ Relation.TransGen l.Follows name name := by
  have hlt : ∀ {name next}, Relation.TransGen l.Follows name next →
      (Entries.keys l.states).idxOf name < (Entries.keys l.states).idxOf next := by
    intro name next hreach
    induction hreach with
    | single hfollows =>
      obtain ⟨state, hs, hmem⟩ := hfollows
      exact h (name, state) (Entries.mem_of_get? hs) _ hmem
    | tail _ hfollows ih =>
      obtain ⟨state, hs, hmem⟩ := hfollows
      exact Nat.lt_trans ih (h (_, state) (Entries.mem_of_get? hs) _ hmem)
  exact fun hcycle => Nat.lt_irrefl _ (hlt hcycle)

theorem levelAlong?_cons {name : String} {settings : MapSettings}
    {itemProcessor? iterator? : Option Machine} {inner : Machine}
    (hs : m.state? name = some (.map settings itemProcessor? iterator?))
    (hp : processor? itemProcessor? iterator? = some inner) (names : List String) :
    levelAlong? (name :: names) m = levelAlong? names inner := by
  rw [levelAlong?, hs]
  exact congrArg (Option.bind · (levelAlong? names)) hp

end Machine

end StateFlow
