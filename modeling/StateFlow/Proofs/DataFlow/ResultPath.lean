import StateFlow.DataFlow.ResultPath

/-!
# Writing at a path

`Json.put` writes a value at the place that a path names and makes objects of what stands in the
way; `Json.walk?` reads such a place.  The two obey the laws of a lens.  What was written is read
back, places on other paths are not touched, the second of two writes counts, and writing what is
there already changes nothing.  The laws hold of every document, also where the path leads through
missing fields, scalars and arrays.

Writes at two places that are apart can be done in either order.  The fields that they make new
stand in the order of the writes, so the two outcomes agree up to the order of entries
(`Json.Rearranged`), at any depth.

## Main definitions

* `PayloadPath expression names`: the expression is a path of these names into the payload
* `Apart p q`: neither of two paths leads through the other
* `Json.Rearranged`: documents that differ in the order of entries only

## Main results

* `PathField.lens_of_payloadPath`: merging a result is a lawful lens
* `PathField.merge_comm`: merges at places that are apart commute
-/

namespace StateFlow

/-! ## Places -/

/-- The expression is a path of these names into the payload. -/
def PayloadPath (expression : String) (names : List String) : Prop :=
  Path.read expression = .ok ⟨.payload, names⟩

/-- Neither of two paths leads through the place of the other. -/
def Apart (p q : List String) : Prop := ¬ p <+: q ∧ ¬ q <+: p

instance (p q : List String) : Decidable (Apart p q) := inferInstanceAs (Decidable (_ ∧ _))

namespace Apart

theorem of_ne {name other : String} (h : name ≠ other) (p q : List String) :
    Apart (name :: p) (other :: q) := by
  simp [Apart, List.cons_prefix_cons, h, h.symm]

theorem cons (name : String) {p q : List String} (h : Apart p q) :
    Apart (name :: p) (name :: q) := by
  rwa [Apart, List.prefix_cons_inj, List.prefix_cons_inj]

/-- Paths that are apart share some names and then part. -/
theorem induction {motive : (p q : List String) → Apart p q → Prop}
    (part : ∀ {name other : String} (h : name ≠ other) (p q : List String),
      motive (name :: p) (other :: q) (of_ne h p q))
    (share : ∀ (name : String) {p q : List String} (h : Apart p q), motive p q h →
      motive (name :: p) (name :: q) (h.cons name))
    {p q : List String} (h : Apart p q) : motive p q h := by
  induction p generalizing q with
  | nil => exact (h.1 List.nil_prefix).elim
  | cons name p ih =>
    cases q with
    | nil => exact (h.2 List.nil_prefix).elim
    | cons other q =>
      by_cases hname : name = other
      · subst hname
        have hbelow : Apart p q := by rwa [Apart, List.prefix_cons_inj, List.prefix_cons_inj] at h
        exact share name hbelow (ih hbelow)
      · exact part hname p q

theorem ne_nil {p q : List String} (h : Apart p q) : q ≠ [] := by
  rintro rfl
  exact h.2 List.nil_prefix

end Apart

/-! ## Reading and writing a place -/

namespace Json

/-- The document that a write at a longer path goes on with. -/
def fieldOrNull (document : Json) (name : String) : Json := (document.field? name).getD null

theorem get?_entriesOrNone (document : Json) (name : String) :
    Entries.get? document.entriesOrNone name = document.field? name := by
  cases document <;> rfl

@[simp] theorem put_nil (document value : Json) : document.put [] value = value := by
  rw [put]

theorem put_cons (document : Json) (name : String) (names : List String) (value : Json) :
    document.put (name :: names) value = object (Entries.insert document.entriesOrNone name
      ((document.fieldOrNull name).put names value)) := by
  rw [put, get?_entriesOrNone]
  rfl

theorem field?_put_self (document : Json) (name : String) (names : List String) (value : Json) :
    (document.put (name :: names) value).field? name =
      some ((document.fieldOrNull name).put names value) := by
  rw [put_cons, field?, Entries.get?_insert_self]

theorem field?_put_of_ne (document : Json) {name other : String} (h : name ≠ other)
    (names : List String) (value : Json) :
    (document.put (name :: names) value).field? other = document.field? other := by
  rw [put_cons, field?, Entries.get?_insert_of_ne _ _ h, get?_entriesOrNone]

theorem fieldOrNull_put_self (document : Json) (name : String) (names : List String)
    (value : Json) : (document.put (name :: names) value).fieldOrNull name =
      (document.fieldOrNull name).put names value := by
  rw [fieldOrNull, field?_put_self, Option.getD_some]

theorem fieldOrNull_put_of_ne (document : Json) {name other : String} (h : name ≠ other)
    (names : List String) (value : Json) :
    (document.put (name :: names) value).fieldOrNull other = document.fieldOrNull other := by
  rw [fieldOrNull, field?_put_of_ne document h, fieldOrNull]

/-- Nothing stands below null, so a missing field may be taken for null. -/
theorem walk?_fieldOrNull (document : Json) (name : String) {names : List String}
    (h : names ≠ []) :
    (document.fieldOrNull name).walk? names = document.walk? (name :: names) := by
  obtain ⟨next, rest, rfl⟩ := List.exists_cons_of_ne_nil h
  rw [walk?_cons document, fieldOrNull]
  cases document.field? name with
  | none => rw [walk?_cons]; rfl
  | some inner => rfl

/-- What was written is read back. -/
theorem walk?_put_self (document : Json) (names : List String) (value : Json) :
    (document.put names value).walk? names = some value := by
  induction names generalizing document with
  | nil => simp
  | cons name names ih => rw [walk?_cons, field?_put_self, Option.bind_some, ih]

/-- Places apart from the one that was written read as before. -/
theorem walk?_put_of_apart {p q : List String} (h : Apart p q) (document value : Json) :
    (document.put p value).walk? q = document.walk? q := by
  induction h using Apart.induction generalizing document with
  | part hne p q => rw [walk?_cons, field?_put_of_ne document hne, walk?_cons]
  | share name h ih =>
    rw [walk?_cons, field?_put_self, Option.bind_some, ih, walk?_fieldOrNull document name h.ne_nil]

/-- The second of two writes counts. -/
theorem put_put_self (document : Json) (names : List String) (first second : Json) :
    (document.put names first).put names second = document.put names second := by
  induction names generalizing document with
  | nil => simp
  | cons name names ih =>
    rw [put_cons (document.put _ _), fieldOrNull_put_self, ih, put_cons document,
      put_cons document, entriesOrNone, entries?, Option.getD_some, Entries.insert_insert_self]

/-- Writing what is there already changes nothing. -/
theorem put_of_walk? {document value : Json} {names : List String}
    (h : document.walk? names = some value) : document.put names value = document := by
  induction names generalizing document with
  | nil =>
    rw [walk?_nil] at h
    rw [put_nil, Option.some.inj h]
  | cons name names ih =>
    rw [walk?_cons, Option.bind_eq_some_iff] at h
    obtain ⟨inner, hinner, hwalk⟩ := h
    have hfield : document.fieldOrNull name = inner := by rw [fieldOrNull, hinner, Option.getD_some]
    rw [put_cons, hfield, ih hwalk]
    cases document with
    | object entries => exact congrArg object (Entries.insert_of_get? hinner)
    | _ => cases hinner

/-! ## Documents up to the order of entries -/

/-- Documents that differ in the order of the entries of their objects only, at whatever depth. -/
inductive Rearranged : Json → Json → Prop
  | refl (document : Json) : Rearranged document document
  | trans {a b c : Json} (hab : Rearranged a b) (hbc : Rearranged b c) : Rearranged a c
  /-- The entries of an object are the same in another order. -/
  | entries {es fs : List (String × Json)} (h : es.Perm fs) : Rearranged (object es) (object fs)
  /-- The value of one entry is rearranged. -/
  | entry {before after : List (String × Json)} {name : String} {v w : Json}
      (h : Rearranged v w) :
      Rearranged (object (before ++ (name, v) :: after)) (object (before ++ (name, w) :: after))
  /-- One item of an array is rearranged. -/
  | item {before after : List Json} {v w : Json} (h : Rearranged v w) :
      Rearranged (array (before ++ v :: after)) (array (before ++ w :: after))

theorem Rearranged.insert {v w : Json} (h : Rearranged v w) (entries : List (String × Json))
    (name : String) :
    Rearranged (object (Entries.insert entries name v))
      (object (Entries.insert entries name w)) := by
  obtain ⟨before, after, hinsert⟩ := Entries.exists_insert_eq entries name
  rw [hinsert v, hinsert w]
  exact .entry h

/-- **Writes at places that are apart can be done in either order.** -/
theorem put_comm {p q : List String} (h : Apart p q) (document v w : Json) :
    Rearranged ((document.put p v).put q w) ((document.put q w).put p v) := by
  induction h using Apart.induction generalizing document with
  | part hne p q =>
    rw [put_cons (document.put _ v), put_cons (document.put _ w), fieldOrNull_put_of_ne _ hne,
      fieldOrNull_put_of_ne _ hne.symm, put_cons document, put_cons document]
    exact .entries (Entries.insert_insert_perm _ hne _ _)
  | share name h ih =>
    rw [put_cons (document.put _ v), put_cons (document.put _ w), fieldOrNull_put_self,
      fieldOrNull_put_self, put_cons document, put_cons document]
    simp only [entriesOrNone, entries?, Option.getD_some, Entries.insert_insert_self]
    exact (ih _).insert _ _

end Json

/-! ## Merging a result -/

namespace PathField

theorem merge_payloadPath {expression : String} {names : List String}
    (h : PayloadPath expression names) (document result : Json) :
    merge document result (.path expression) = .ok (document.put names result) := by
  rw [merge, readPath, h]
  rfl

end PathField

theorem resolvePayload_payloadPath {expression : String} {names : List String}
    (h : PayloadPath expression names) (document : Json) :
    resolvePayload document expression = follow document ⟨.payload, names⟩ expression := by
  rw [resolvePayload, readPath, h]
  rfl

theorem resolvePayload_eq_ok_iff {expression : String} {names : List String}
    (h : PayloadPath expression names) (document value : Json) :
    resolvePayload document expression = .ok value ↔ document.walk? names = some value := by
  rw [resolvePayload_payloadPath h, follow]
  cases document.walk? names <;> simp

namespace PathField

/-- **Merging a result into a payload is a lawful lens.**  The result is read back where it was
merged; a place that is apart reads as before, with its value or the fault that it has none; the
second of two results counts; and merging what is there already gives the same document. -/
theorem lens_of_payloadPath {expression : String} {names : List String}
    (h : PayloadPath expression names) (document result second : Json) :
    ∃ merged, merge document result (.path expression) = .ok merged ∧
      resolvePayload merged expression = .ok result ∧
      (∀ other names', PayloadPath other names' → Apart names names' →
        resolvePayload merged other = resolvePayload document other) ∧
      merge merged second (.path expression) = merge document second (.path expression) ∧
      ∀ value, resolvePayload document expression = .ok value →
        merge document value (.path expression) = .ok document := by
  refine ⟨document.put names result, merge_payloadPath h document result, ?_, ?_, ?_, ?_⟩
  · rw [resolvePayload_eq_ok_iff h]
    exact document.walk?_put_self names result
  · intro other names' hother hapart
    rw [resolvePayload_payloadPath hother, resolvePayload_payloadPath hother, follow, follow,
      Json.walk?_put_of_apart hapart]
  · rw [merge_payloadPath h, merge_payloadPath h, Json.put_put_self]
  · intro value hvalue
    rw [resolvePayload_eq_ok_iff h] at hvalue
    rw [merge_payloadPath h, Json.put_of_walk? hvalue]

/-- A document with two fields side by side. -/
def siblings : Json :=
  .object [("k", .null), ("a", .object [("b", .ofNat 1), ("c", .ofNat 2)])]

/-- The laws at one of the two fields, with the other as the place that is apart. -/
theorem lens_of_payloadPath_siblings :
    PayloadPath "$.a.b" ["a", "b"] ∧ PayloadPath "$.a.c" ["a", "c"] ∧
      Apart ["a", "b"] ["a", "c"] ∧ resolvePayload siblings "$.a.b" = .ok (.ofNat 1) ∧
      ∃ merged, merge siblings .null (.path "$.a.b") = .ok merged ∧
        resolvePayload merged "$.a.b" = .ok .null ∧
        resolvePayload merged "$.a.c" = resolvePayload siblings "$.a.c" ∧
        merge merged (.string "s") (.path "$.a.b") =
          merge siblings (.string "s") (.path "$.a.b") ∧
        merge siblings (.ofNat 1) (.path "$.a.b") = .ok siblings := by
  have hb : PayloadPath "$.a.b" ["a", "b"] := rfl
  have hc : PayloadPath "$.a.c" ["a", "c"] := rfl
  have hapart : Apart ["a", "b"] ["a", "c"] := by decide
  have hvalue : resolvePayload siblings "$.a.b" = .ok (.ofNat 1) := rfl
  obtain ⟨merged, hmerged, hread, hother, hsecond, hsame⟩ :=
    lens_of_payloadPath hb siblings .null (.string "s")
  exact ⟨hb, hc, hapart, hvalue, merged, hmerged, hread, hother _ _ hc hapart, hsecond,
    hsame _ hvalue⟩

/-- **Merges at places that are apart commute** up to the order of entries. -/
theorem merge_comm {p q : String} {names names' : List String} (hp : PayloadPath p names)
    (hq : PayloadPath q names') (h : Apart names names') (document first second : Json) :
    ∃ pq qp, merge document first (.path p) >>= (merge · second (.path q)) = .ok pq ∧
      merge document second (.path q) >>= (merge · first (.path p)) = .ok qp ∧
      Json.Rearranged pq qp := by
  refine ⟨(document.put names first).put names' second,
    (document.put names' second).put names first,
    ?_, ?_, Json.put_comm h document first second⟩
  · rw [merge_payloadPath hp]
    exact merge_payloadPath hq _ second
  · rw [merge_payloadPath hq]
    exact merge_payloadPath hp _ first

/-- Two fields made new in a text, which gives way to an object. -/
theorem merge_comm_text :
    PayloadPath "$.a.b" ["a", "b"] ∧ PayloadPath "$.a.c" ["a", "c"] ∧
      Apart ["a", "b"] ["a", "c"] ∧
      ∃ bc cb, merge (.string "text") (.ofNat 1) (.path "$.a.b") >>=
          (merge · (.ofNat 2) (.path "$.a.c")) = .ok bc ∧
        merge (.string "text") (.ofNat 2) (.path "$.a.c") >>=
          (merge · (.ofNat 1) (.path "$.a.b")) = .ok cb ∧
        Json.Rearranged bc cb := by
  have hb : PayloadPath "$.a.b" ["a", "b"] := rfl
  have hc : PayloadPath "$.a.c" ["a", "c"] := rfl
  have hapart : Apart ["a", "b"] ["a", "c"] := by decide
  exact ⟨hb, hc, hapart, merge_comm hb hc hapart (.string "text") (.ofNat 1) (.ofNat 2)⟩

end PathField

end StateFlow
