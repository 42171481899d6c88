import StateFlow.Entries
import StateFlow.Number.Basic

/-!
# Documents

A document is a JSON value whose objects keep their entries in authoring order.  That the names of
an object are distinct is a predicate on documents, `Json.WellFormed`, and not part of the type:
every reader produces such documents and every operation on payloads keeps them so.
-/

namespace StateFlow

/-- A JSON document. -/
inductive Json where
  | null
  | boolean (value : Bool)
  | number (value : Number)
  | string (value : String)
  | array (items : List Json)
  | object (entries : List (String × Json))
deriving Inhabited, Repr

namespace Json

deriving instance BEq for Json

/-- The empty object. -/
def empty : Json := object []

/-- A natural number as a document. -/
def ofNat (n : Nat) : Json := number (.integer n)

/-- A string, or null for none. -/
def ofOption : Option String → Json
  | none => null
  | some s => string s

/-- The name of a document's type, as diagnostics write it. -/
def typeName : Json → String
  | null => "null"
  | boolean _ => "boolean"
  | number _ => "number"
  | string _ => "string"
  | array _ => "array"
  | object _ => "object"

/-- The text of a string document. -/
def string? : Json → Option String
  | string s => some s
  | _ => none

/-- The number of a number document. -/
def number? : Json → Option Number
  | number n => some n
  | _ => none

/-- The entries of an object. -/
def entries? : Json → Option (List (String × Json))
  | object es => some es
  | _ => none

/-- The items of an array. -/
def items? : Json → Option (List Json)
  | array xs => some xs
  | _ => none

/-- True of null alone. -/
def isNull : Json → Bool
  | null => true
  | _ => false

/-- The value under a name; only objects have any. -/
def field? (document : Json) (name : String) : Option Json :=
  match document with
  | object es => Entries.get? es name
  | _ => none

/-- What is had by a document if all its parts have it is had by every document. -/
@[elab_as_elim]
theorem induction {motive : Json → Prop}
    (object : ∀ entries : List (String × Json), (∀ e ∈ entries, motive e.2) →
      motive (object entries))
    (array : ∀ items : List Json, (∀ x ∈ items, motive x) → motive (array items))
    (scalar : ∀ document : Json, document.entries? = none → document.items? = none →
      motive document)
    (document : Json) : motive document :=
  @Json.rec motive (fun items => ∀ x ∈ items, motive x) (fun entries => ∀ e ∈ entries, motive e.2)
    (fun e => motive e.2) (scalar _ rfl rfl) (fun _ => scalar _ rfl rfl) (fun _ => scalar _ rfl rfl)
    (fun _ => scalar _ rfl rfl) array object nofun
    (fun _ _ hx hxs => List.forall_mem_cons.mpr ⟨hx, hxs⟩) nofun
    (fun _ _ he hes => List.forall_mem_cons.mpr ⟨he, hes⟩) (fun _ _ h => h) document

mutual

/-- Every object at any depth has distinct names. -/
def WellFormed : Json → Prop
  | array xs => WellFormedItems xs
  | object es => (Entries.keys es).Nodup ∧ WellFormedEntries es
  | _ => True

/-- Every item is well formed. -/
def WellFormedItems : List Json → Prop
  | [] => True
  | x :: xs => WellFormed x ∧ WellFormedItems xs

/-- Every value is well formed. -/
def WellFormedEntries : List (String × Json) → Prop
  | [] => True
  | (_, v) :: es => WellFormed v ∧ WellFormedEntries es

end

theorem wellFormedItems_iff (xs : List Json) : WellFormedItems xs ↔ ∀ x ∈ xs, WellFormed x := by
  induction xs with
  | nil => simp [WellFormedItems]
  | cons x xs ih => simp [WellFormedItems, ih]

theorem wellFormedEntries_iff (es : List (String × Json)) :
    WellFormedEntries es ↔ ∀ e ∈ es, WellFormed e.2 := by
  induction es with
  | nil => simp [WellFormedEntries]
  | cons e es ih => obtain ⟨k, v⟩ := e; simp [WellFormedEntries, ih]

end Json

end StateFlow
