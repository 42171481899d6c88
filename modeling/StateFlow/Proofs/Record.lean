import StateFlow.Proofs.Outcome
import StateFlow.Record

/-!
# Records, field by field

A record is read by a step for each entry of a document, from a record without any field.
`Gathers readField entries s s'` says that the entries take the record from `s` to `s'`.  The
entries that a record writes are put together from one piece for each field, so reading them back
is shown piece by piece: a piece sets its own field, and the pieces of others change nothing.
-/

namespace StateFlow

open Json

/-! ## Single fields -/

/-- A count that is there is no greater than a bound. -/
def Counts (greatest : Nat) (count? : Option Nat) : Prop := ∀ n, count? = some n → n ≤ greatest

/-- A free document that is there is not null. -/
def Free (document? : Option Json) : Prop := document? ≠ some .null

namespace Json

theorem readCount_ofNat {greatest n : Nat} (h : n ≤ greatest) :
    readCount greatest (ofNat n) = .ok n := by
  have hrange : (0 : Int) ≤ n ∧ (n : Int) ≤ greatest := by omega
  rw [ofNat, readCount, if_pos hrange]
  rfl

theorem readCount_yields (greatest : Nat) (value : Json) :
    Yields (· ≤ greatest) (readCount greatest value) := by
  unfold readCount
  split
  · split
    · next hrange => exact .ok (by omega)
    · exact .error _
  · exact .error _

theorem readOptional_yields {α : Type} {read : Json → Except RecordError α} {Q : α → Prop}
    {value : Json} (h : Yields Q (read value)) :
    Yields (fun a? => ∀ a, a? = some a → Q a) (readOptional read value) := by
  unfold readOptional
  split
  · exact .ok nofun
  · refine h.map fun a ha b hb => ?_
    cases hb
    exact ha

theorem readDocument?_free (value : Json) : Free value.readDocument? := by
  cases value <;> simp [Free, readDocument?]

/-- A document other than null is read back where null leaves a field out. -/
theorem readDocument?_of_ne {value : Json} (h : value ≠ .null) :
    value.readDocument? = some value := by
  cases value <;> first | exact absurd rfl h | rfl

theorem require_ok {entries : List (String × Json)} {name : String} (value : Json)
    (h : (name, value) ∈ entries) : require entries name = .ok () := by
  have hname : Entries.contains entries name = true :=
    (Entries.mem_keys_iff _ _).mp (List.mem_map.mpr ⟨_, h, rfl⟩)
  rw [require, if_pos hname]

end Json

/-! ## Reading entries one after the other -/

/-- Reading some entries in order takes a record from one value to another. -/
def Gathers {σ : Type} (readField : σ → String → Json → Except RecordError σ)
    (entries : List (String × Json)) (s s' : σ) : Prop :=
  entries.foldlM (fun s e => readField s e.1 e.2) s = .ok s'

namespace Gathers

variable {σ : Type} {readField : σ → String → Json → Except RecordError σ}
variable {xs ys : List (String × Json)} {s s' s'' : σ}

theorem foldlM_eq (h : Gathers readField xs s s') :
    xs.foldlM (fun s e => readField s e.1 e.2) s = .ok s' := h

theorem append (hxs : Gathers readField xs s s') (hys : Gathers readField ys s' s'') :
    Gathers readField (xs ++ ys) s s'' := by
  unfold Gathers at *
  rw [List.foldlM_append, hxs]
  exact hys

theorem single {name : String} {value : Json} (h : readField s name value = .ok s') :
    Gathers readField [(name, value)] s s' := by
  rw [Gathers, List.foldlM_cons, h]
  rfl

/-- Entries that a record does not know change nothing. -/
theorem skip (h : ∀ e ∈ xs, readField s e.1 e.2 = .ok s) : Gathers readField xs s s := by
  induction xs with
  | nil => rfl
  | cons e xs ih =>
    obtain ⟨he, hxs⟩ := List.forall_mem_cons.mp h
    rw [Gathers, List.foldlM_cons, he]
    exact ih hxs

/-- An entry that a record does not know may stand first. -/
theorem cons {e : String × Json} (he : readField s e.1 e.2 = .ok s)
    (hxs : Gathers readField xs s s') : Gathers readField (e :: xs) s s' := by
  rw [Gathers, List.foldlM_cons, he]
  exact hxs

/-- The entry of an optional field sets it.  The record is given with that field open. -/
theorem entryOf {α : Type} {name : String} {write : α → Json} {value? : Option α}
    (record : Option α → σ) (h : ∀ value, value? = some value →
      readField (record none) name (write value) = .ok (record (some value))) :
    Gathers readField (entryOf name write value?) (record none) (record value?) := by
  cases value? with
  | none => rfl
  | some value => exact single (h value rfl)

/-- The entry of a path field sets it. -/
theorem pathEntry {name : String} {field : PathField} (record : PathField → σ)
    (hnull : readField (record .absent) name .null = .ok (record .null))
    (hpath : ∀ text, readField (record .absent) name (string text) = .ok (record (.path text))) :
    Gathers readField (pathEntry name field) (record .absent) (record field) := by
  cases field with
  | absent => rfl
  | null => exact single hnull
  | path text => exact single (hpath text)

/-- The entry of a free document sets its field. -/
theorem document {name : String} {document? : Option Json} (hfree : Free document?)
    (record : Option Json → σ)
    (h : ∀ value, readField (record none) name value = .ok (record value.readDocument?)) :
    Gathers readField (Json.entryOf name id document?) (record none) (record document?) := by
  refine entryOf record fun value hvalue => ?_
  rw [h, id, readDocument?_of_ne]
  rintro rfl
  exact hfree hvalue

/-- The entry of an optional count sets its field. -/
theorem count {greatest : Nat} {name : String} {count? : Option Nat}
    (hcount : Counts greatest count?) (record : Option Nat → σ)
    (h : ∀ value, readField (record none) name value =
      value.readOptional (readCount greatest) >>= fun n? => .ok (record n?)) :
    Gathers readField (Json.entryOf name ofNat count?) (record none) (record count?) := by
  refine entryOf record fun n hn => ?_
  have hread : (ofNat n).readOptional (readCount greatest) = some <$> .ok n :=
    congrArg (some <$> ·) (readCount_ofNat (hcount n hn))
  rw [h, hread]
  rfl

end Gathers

end StateFlow
