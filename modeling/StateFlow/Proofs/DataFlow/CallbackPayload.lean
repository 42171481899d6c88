import StateFlow.Proofs.DataFlow.Filling

/-!
# The input of a callback function

A callback task does not hand its whole filled template to the function, but what `"Payload"` or
`"Payload.$"` gives, and for that it fills these entries and no others.  It comes to the same as
filling all and taking the field (`callbackPayload_of_effectiveInput`), whichever of the two entries
there are and in whichever order: of several the last one counts on both ways.  The way of a
callback task can succeed where the other fails, as it does not look at the other entries.

## Main definitions

* `Template.CallbackEntries`: the entries that the template of a callback task may hold

## Main results

* `Template.callbackFault?_eq_none_iff`: which templates are accepted
* `Template.callbackPayload_congr`: the input depends on the selections only
* `Template.callbackPayload_of_effectiveInput`: both ways agree
-/

namespace StateFlow.Template

/-! ## Names of entries -/

theorem filledName?_eq_some_iff {key name : String} :
    filledName? key = some name ↔ key = name ++ ".$" := by
  rw [← String.toList_inj, String.toList_append]
  unfold filledName?
  constructor
  · intro h
    split at h
    · next rest hkey =>
      cases h
      have hreverse := congrArg List.reverse hkey
      simpa using hreverse
    · cases h
  · intro h
    rw [h]
    simp

/-- A name without the suffix is produced under itself and under itself with the suffix. -/
theorem producedName_eq_iff {key name : String} (hname : filledName? name = none) :
    producedName key = name ↔ key = name ∨ key = name ++ ".$" := by
  cases hkey : filledName? key with
  | some filled =>
    rw [producedName_of_filledName? hkey]
    obtain rfl := filledName?_eq_some_iff.mp hkey
    constructor
    · rintro rfl
      exact .inr rfl
    · rintro (rfl | h)
      · rw [hname] at hkey
        cases hkey
      · exact (String.append_left_inj _).mp h
  | none =>
    rw [producedName_of_literal hkey]
    constructor
    · exact .inl
    · rintro (h | rfl)
      · exact h
      · rw [filledName?_eq_some_iff.mpr rfl] at hkey
        cases hkey

/-! ## Accepted templates -/

/-- The entries of a template that names a function and holds no foreign field. -/
structure CallbackEntries (entries : List (String × Json)) : Prop where
  function : functionName ∈ Entries.keys entries ∨ functionName ++ ".$" ∈ Entries.keys entries
  fields : ∀ key ∈ Entries.keys entries,
    ∃ field ∈ callbackFields, key = field ∨ key = field ++ ".$"

theorem callbackFault?_eq_none_iff {entries : List (String × Json)} :
    callbackFault? entries = none ↔ CallbackEntries entries := by
  have hliteral : ∀ field ∈ callbackFields, filledName? field = none := by decide
  have hfunction : functionName ∈ (Entries.keys entries).map producedName ↔
      functionName ∈ Entries.keys entries ∨ functionName ++ ".$" ∈ Entries.keys entries := by
    have hname : filledName? functionName = none := hliteral functionName List.mem_cons_self
    simp only [List.mem_map, producedName_eq_iff hname, and_or_left, exists_or,
      exists_eq_right]
  have hfield : ∀ key, producedName key ∈ callbackFields ↔
      ∃ field ∈ callbackFields, key = field ∨ key = field ++ ".$" := by
    intro key
    constructor
    · intro hmem
      exact ⟨_, hmem, (producedName_eq_iff (hliteral _ hmem)).mp rfl⟩
    · rintro ⟨field, hmem, hkey⟩
      rwa [(producedName_eq_iff (hliteral field hmem)).mpr hkey]
  have hfields : (∀ name ∈ (Entries.keys entries).map producedName, name ∈ callbackFields) ↔
      ∀ key ∈ Entries.keys entries,
        ∃ field ∈ callbackFields, key = field ∨ key = field ++ ".$" := by
    simp only [List.forall_mem_map, hfield]
  unfold callbackFault?
  dsimp only
  split
  · next hmissing =>
    exact ⟨nofun, fun h => (hmissing (hfunction.mpr h.function)).elim⟩
  · next hnamed =>
    rw [not_not] at hnamed
    simp only [Option.map_eq_none_iff, List.find?_eq_none, decide_eq_true_eq, not_not]
    exact ⟨fun h => ⟨hfunction.mp hnamed, hfields.mp h⟩, fun h => hfields.mpr h.fields⟩

/-! ## The two ways to fill -/

variable {payload context : Json}

theorem fillPayload_cons (last : Json) (e : String × Json) (rest : List (String × Json)) :
    fillPayload payload context last (e :: rest) =
      if producedName e.1 = payloadName then do
        let value ← entryValue payload context e.1 e.2
        fillPayload payload context value rest
      else fillPayload payload context last rest := by
  rw [fillPayload, entryValue]
  split
  · cases filledName? e.1 <;> rfl
  · rfl

/-- The payload that fields stand for: that field, or the empty object. -/
def payloadOf (fields : List (String × Json)) : Json :=
  (Entries.get? fields payloadName).getD Json.empty

/-- Setting fields one after the other, one has at each point the payload that filling the payload
entries alone has come to. -/
theorem fillPayload_payloadOf {entries pairs : List (String × Json)}
    (h : fillEntries payload context entries = .ok pairs) (fields : List (String × Json)) :
    fillPayload payload context (payloadOf fields) entries =
      .ok (payloadOf (pairs.foldl (fun es e => Entries.insert es e.1 e.2) fields)) := by
  induction entries generalizing pairs fields with
  | nil =>
    rw [fillEntries] at h
    cases h
    rfl
  | cons e rest ih =>
    obtain ⟨key, template⟩ := e
    simp only [fillEntries_cons, bind_eq_ok_iff] at h
    obtain ⟨value, hvalue, later, hlater, hpairs⟩ := h
    cases hpairs
    rw [fillPayload_cons, List.foldl_cons, ← ih hlater]
    split
    · next hname =>
      rw [hvalue, payloadOf, hname, Entries.get?_insert_self]
      rfl
    · next hname => rw [payloadOf, payloadOf, Entries.get?_insert_of_ne _ _ hname]

theorem fillPayload_congr {payload' context' : Json} {entries : List (String × Json)}
    (h : ∀ e ∈ entries, entryValue payload' context' e.1 e.2 = entryValue payload context e.1 e.2)
    (last : Json) :
    fillPayload payload' context' last entries = fillPayload payload context last entries := by
  induction entries generalizing last with
  | nil => rw [fillPayload, fillPayload]
  | cons e rest ih =>
    obtain ⟨he, hrest⟩ := List.forall_mem_cons.mp h
    simp only [fillPayload_cons, he, ih hrest]

/-- **The input of a callback function depends on the selections of the template only.** -/
theorem callbackPayload_congr {payload' context' template : Json}
    (h : ∀ e ∈ selections template,
      select payload' context' e.1 e.2 = select payload context e.1 e.2) :
    callbackPayload payload' context' (some template) =
      callbackPayload payload context (some template) := by
  cases template with
  | object entries =>
    rw [selections_object, List.forall_mem_flatMap] at h
    have hentry : ∀ e ∈ entries,
        entryValue payload' context' e.1 e.2 = entryValue payload context e.1 e.2 :=
      fun e he => entryValue_congr fill_congr_of_selections (h e he)
    rw [callbackPayload, callbackPayload]
    simp only [fillPayload_congr hentry]
  | _ => rfl

/-- **Filling the payload alone comes to the payload of all.**  If the template of a callback task
is accepted and can be filled, it comes to an object, and the function is given the `Payload` of
that object, or the empty object where there is none. -/
theorem callbackPayload_of_effectiveInput {entries : List (String × Json)} {output : Json}
    (hentries : CallbackEntries entries)
    (h : effectiveInput payload context (some (.object entries)) = .ok output) :
    ∃ fields, output = .object fields ∧ callbackPayload payload context (some (.object entries)) =
      .ok ((Entries.get? fields payloadName).getD Json.empty) := by
  rw [effectiveInput, fill, bind_eq_ok_iff] at h
  obtain ⟨pairs, hpairs, houtput⟩ := h
  cases houtput
  refine ⟨Entries.ofPairs pairs, rfl, ?_⟩
  rw [callbackPayload, callbackFault?_eq_none_iff.mpr hentries]
  exact fillPayload_payloadOf hpairs []

/-- A literal payload and a selected one, around the name of the function. -/
def payloadTwice : List (String × Json) :=
  [("Payload", .object [("a", .ofNat 1)]), ("FunctionName", .string "f"),
    ("Payload.$", .string "$.x")]

/-- Of two payloads the last one counts, in either order. -/
theorem callbackPayload_of_effectiveInput_twice :
    CallbackEntries payloadTwice ∧ CallbackEntries payloadTwice.reverse ∧
    effectiveInput payloadOfFive .null (some (.object payloadTwice)) =
      .ok (.object [("Payload", .ofNat 5), ("FunctionName", .string "f")]) ∧
    effectiveInput payloadOfFive .null (some (.object payloadTwice.reverse)) =
      .ok (.object [("Payload", .object [("a", .ofNat 1)]), ("FunctionName", .string "f")]) ∧
    callbackPayload payloadOfFive .null (some (.object payloadTwice)) = .ok (.ofNat 5) ∧
    callbackPayload payloadOfFive .null (some (.object payloadTwice.reverse)) =
      .ok (.object [("a", .ofNat 1)]) := by
  have hentries : CallbackEntries payloadTwice := ⟨.inl (by decide), by decide⟩
  have hreverse : CallbackEntries payloadTwice.reverse := ⟨.inl (by decide), by decide⟩
  have hlast : effectiveInput payloadOfFive .null (some (.object payloadTwice)) =
      .ok (.object [("Payload", .ofNat 5), ("FunctionName", .string "f")]) := rfl
  have hfirst : effectiveInput payloadOfFive .null (some (.object payloadTwice.reverse)) =
      .ok (.object [("Payload", .object [("a", .ofNat 1)]), ("FunctionName", .string "f")]) := rfl
  obtain ⟨fields, heq, hpayload⟩ := callbackPayload_of_effectiveInput hentries hlast
  cases heq
  obtain ⟨fields, heq, hpayload'⟩ := callbackPayload_of_effectiveInput hreverse hfirst
  cases heq
  exact ⟨hentries, hreverse, hlast, hfirst, hpayload, hpayload'⟩

end StateFlow.Template
