import Mathlib.Data.List.Basic
import StateFlow.Machine.Definition

/-!
# The free documents of a definition

Parameters, item selectors and the branches of a Parallel state are documents that a definition
carries along without a form of their own.  They can be listed, and they can all be changed by a
function, at any depth of Map states; everything else of the definition stays as it is.

## Main definitions

* `Machine.documents`: the free documents of a machine
* `Machine.mapDocuments`: a machine with its free documents changed

## Main results

* `Machine.mapDocuments_eq_self_iff`: a machine none of whose free documents is changed is the same
-/

namespace StateFlow

namespace PassState

/-- A Pass state with its free document changed. -/
def mapDocuments (f : Json → Json) (s : PassState) : PassState :=
  { s with parameters? := s.parameters?.map f }

/-- The free document of a Pass state. -/
def documents (s : PassState) : List Json := s.parameters?.toList

end PassState

namespace TaskState

/-- A Task state with its free document changed. -/
def mapDocuments (f : Json → Json) (s : TaskState) : TaskState :=
  { s with parameters? := s.parameters?.map f }

/-- The free document of a Task state. -/
def documents (s : TaskState) : List Json := s.parameters?.toList

end TaskState

namespace ParallelState

/-- A Parallel state with its free documents changed. -/
def mapDocuments (f : Json → Json) (s : ParallelState) : ParallelState :=
  { s with branches := s.branches.map f }

end ParallelState

namespace MapSettings

/-- The settings of a Map state with their free documents changed. -/
def mapDocuments (f : Json → Json) (s : MapSettings) : MapSettings :=
  { s with itemSelector? := s.itemSelector?.map f, parameters? := s.parameters?.map f }

/-- The free documents among the settings of a Map state. -/
def documents (s : MapSettings) : List Json := s.itemSelector?.toList ++ s.parameters?.toList

end MapSettings

mutual

/-- A machine with the free documents of its states changed, at any depth. -/
def Machine.mapDocuments (f : Json → Json) : Machine → Machine
  | ⟨comment?, startAt, states, timeout?⟩ =>
    ⟨comment?, startAt, State.mapAllDocuments f states, timeout?⟩

/-- The same for the states of a table. -/
def State.mapAllDocuments (f : Json → Json) : List (String × State) → List (String × State)
  | [] => []
  | (name, state) :: rest => (name, state.mapDocuments f) :: State.mapAllDocuments f rest

/-- The same for a state. -/
def State.mapDocuments (f : Json → Json) : State → State
  | .pass s => .pass (s.mapDocuments f)
  | .task s => .task (s.mapDocuments f)
  | .parallel s => .parallel (s.mapDocuments f)
  | .map settings itemProcessor? iterator? =>
    .map (settings.mapDocuments f) (Machine.mapAnyDocuments f itemProcessor?)
      (Machine.mapAnyDocuments f iterator?)
  | state => state

/-- The same for a machine that may be there. -/
def Machine.mapAnyDocuments (f : Json → Json) : Option Machine → Option Machine
  | none => none
  | some m => some (m.mapDocuments f)

end

mutual

/-- The free documents of a machine, at any depth. -/
def Machine.documents : Machine → List Json
  | ⟨_, _, states, _⟩ => State.allDocuments states

/-- The free documents of the states of a table. -/
def State.allDocuments : List (String × State) → List Json
  | [] => []
  | (_, state) :: rest => state.documents ++ State.allDocuments rest

/-- The free documents of a state. -/
def State.documents : State → List Json
  | .pass s => s.documents
  | .task s => s.documents
  | .parallel s => s.branches
  | .map settings itemProcessor? iterator? =>
    settings.documents ++ Machine.anyDocuments itemProcessor? ++ Machine.anyDocuments iterator?
  | _ => []

/-- The free documents of a machine that may be there. -/
def Machine.anyDocuments : Option Machine → List Json
  | none => []
  | some m => m.documents

end

/-! ## Documents that are not changed -/

theorem map_eq_self_iff {α : Type} {f : α → α} {xs : List α} :
    xs.map f = xs ↔ ∀ x ∈ xs, f x = x := by
  have hid : xs.map f = xs ↔ xs.map f = xs.map id := by rw [List.map_id]
  exact hid.trans List.map_inj_left

theorem option_map_eq_self_iff {α : Type} {f : α → α} (x? : Option α) :
    x?.map f = x? ↔ ∀ x ∈ x?.toList, f x = x := by
  cases x? <;> simp

section

variable {f : Json → Json}

theorem PassState.mapDocuments_eq_self_iff (s : PassState) :
    s.mapDocuments f = s ↔ ∀ x ∈ s.documents, f x = x := by
  obtain ⟨_, _, parameters?, _, _, _⟩ := s
  simp [mapDocuments, documents, option_map_eq_self_iff]

theorem TaskState.mapDocuments_eq_self_iff (s : TaskState) :
    s.mapDocuments f = s ↔ ∀ x ∈ s.documents, f x = x := by
  obtain ⟨_, _, _, parameters?, _, _, _, _⟩ := s
  simp [mapDocuments, documents, option_map_eq_self_iff]

theorem ParallelState.mapDocuments_eq_self_iff (s : ParallelState) :
    s.mapDocuments f = s ↔ ∀ x ∈ s.branches, f x = x := by
  obtain ⟨_, branches, _⟩ := s
  simp [mapDocuments, map_eq_self_iff]

theorem MapSettings.mapDocuments_eq_self_iff (s : MapSettings) :
    s.mapDocuments f = s ↔ ∀ x ∈ s.documents, f x = x := by
  cases s
  simp only [mapDocuments, documents, MapSettings.mk.injEq, true_and, and_true,
    option_map_eq_self_iff, List.forall_mem_append]

mutual

/-- Only a machine with a free document that is changed is changed. -/
theorem Machine.mapDocuments_eq_self_iff : (m : Machine) →
    (m.mapDocuments f = m ↔ ∀ x ∈ m.documents, f x = x)
  | ⟨_, _, states, _⟩ => by
    rw [Machine.mapDocuments, Machine.documents, ← State.mapAllDocuments_eq_self_iff states]
    simp

theorem State.mapAllDocuments_eq_self_iff : (states : List (String × State)) →
    (State.mapAllDocuments f states = states ↔ ∀ x ∈ State.allDocuments states, f x = x)
  | [] => by simp [State.mapAllDocuments, State.allDocuments]
  | (name, state) :: states => by
    rw [State.mapAllDocuments, State.allDocuments, List.forall_mem_append,
      ← State.mapDocuments_eq_self_iff state, ← State.mapAllDocuments_eq_self_iff states]
    simp

theorem State.mapDocuments_eq_self_iff : (state : State) →
    (state.mapDocuments f = state ↔ ∀ x ∈ state.documents, f x = x)
  | .pass s => by
    rw [State.mapDocuments, State.documents, ← s.mapDocuments_eq_self_iff, State.pass.injEq]
  | .task s => by
    rw [State.mapDocuments, State.documents, ← s.mapDocuments_eq_self_iff, State.task.injEq]
  | .parallel s => by
    rw [State.mapDocuments, State.documents, ← s.mapDocuments_eq_self_iff, State.parallel.injEq]
  -- both machines count here, although only one of them is run
  | .map settings itemProcessor? iterator? => by
    rw [State.mapDocuments, State.documents, List.forall_mem_append, List.forall_mem_append,
      ← settings.mapDocuments_eq_self_iff, ← Machine.mapAnyDocuments_eq_self_iff itemProcessor?,
      ← Machine.mapAnyDocuments_eq_self_iff iterator?, State.map.injEq, and_assoc]
  | .wait _ | .choice _ | .fail _ | .succeed _ => by simp [State.mapDocuments, State.documents]

theorem Machine.mapAnyDocuments_eq_self_iff : (m? : Option Machine) →
    (Machine.mapAnyDocuments f m? = m? ↔ ∀ x ∈ Machine.anyDocuments m?, f x = x)
  | none => by simp [Machine.mapAnyDocuments, Machine.anyDocuments]
  | some m => by
    rw [Machine.mapAnyDocuments, Machine.anyDocuments, ← Machine.mapDocuments_eq_self_iff m,
      Option.some.injEq]

end

end

end StateFlow
