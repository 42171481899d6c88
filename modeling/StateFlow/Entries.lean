/-!
# Named entries in authoring order

Documents, state tables and manifests keep their entries in the order in which they were written.
A list of pairs carries that order; the operations here treat it as a map from names.
`get?_insert_self` and `get?_insert_of_ne` say what `insert` does to a look-up,
`keys_insert_of_mem` and `keys_insert_of_not_mem` what it does to the order, and
`insert_insert_self` and `insert_insert_perm` what two of them come to.  `swapRemove` changes the
order of what it leaves, and nothing else (`perm_swapRemove`).
-/

namespace StateFlow.Entries

variable {α : Type}

/-- The first value under a name. -/
def get? : List (String × α) → String → Option α
  | [], _ => none
  | (k, v) :: rest, name => if k = name then some v else get? rest name

/-- The names in order. -/
def keys (entries : List (String × α)) : List String := entries.map (·.1)

/-- True when a name is present. -/
def contains (entries : List (String × α)) (name : String) : Bool := (get? entries name).isSome

/-- Sets the value under a name: in place when the name is present, at the end otherwise. -/
def insert : List (String × α) → String → α → List (String × α)
  | [], name, value => [(name, value)]
  | (k, v) :: rest, name, value =>
    if k = name then (k, value) :: rest else (k, v) :: insert rest name value

/-- Removes an entry by moving the last one into its place. -/
def swapRemove : List (String × α) → String → List (String × α)
  | [], _ => []
  | (k, v) :: rest, name =>
    if k = name then
      match rest.getLast? with
      | none => []
      | some last => last :: rest.dropLast
    else (k, v) :: swapRemove rest name

/-- The entry of a name that may be left out. -/
def optional (name : String) (value? : Option α) : List (String × α) :=
  (value?.map (name, ·)).toList

/-- The entries set one after the other, so that a repeated name keeps its first place and its last
value. -/
def ofPairs (pairs : List (String × α)) : List (String × α) :=
  pairs.foldl (fun es e => insert es e.1 e.2) []

@[simp] theorem get?_nil (name : String) : get? ([] : List (String × α)) name = none := rfl

theorem get?_cons (k : String) (v : α) (rest : List (String × α)) (name : String) :
    get? ((k, v) :: rest) name = if k = name then some v else get? rest name := rfl

@[simp] theorem get?_insert_self (entries : List (String × α)) (name : String) (value : α) :
    get? (insert entries name value) name = some value := by
  induction entries with
  | nil => simp [insert, get?_cons]
  | cons e rest ih =>
    obtain ⟨k, v⟩ := e
    by_cases h : k = name <;> simp [insert, get?_cons, h, ih]

theorem get?_insert_of_ne (entries : List (String × α)) {name other : String} (value : α)
    (h : name ≠ other) : get? (insert entries name value) other = get? entries other := by
  induction entries with
  | nil => simp [insert, get?_cons, h]
  | cons e rest ih =>
    obtain ⟨k, v⟩ := e
    by_cases hk : k = name
    · subst hk; simp [insert, get?_cons, h]
    · simp [insert, get?_cons, hk, ih]

theorem mem_keys_iff (entries : List (String × α)) (name : String) :
    name ∈ keys entries ↔ (get? entries name).isSome := by
  induction entries with
  | nil => simp [keys]
  | cons e rest ih =>
    obtain ⟨k, v⟩ := e
    by_cases h : k = name
    · simp [keys, get?_cons, h]
    · have : name ≠ k := fun e => h e.symm
      simpa [keys, get?_cons, h, this] using ih

theorem mem_of_get? {entries : List (String × α)} {name : String} {value : α}
    (h : get? entries name = some value) : (name, value) ∈ entries := by
  induction entries with
  | nil => simp at h
  | cons e rest ih =>
    obtain ⟨k, v⟩ := e
    by_cases hk : k = name
    · simp_all [get?_cons]
    · exact List.mem_cons_of_mem _ (ih (by simpa [get?_cons, hk] using h))

theorem nodup_keys_cons {entries : List (String × α)} {name : String} {value : α} :
    (keys ((name, value) :: entries)).Nodup ↔ get? entries name = none ∧ (keys entries).Nodup := by
  have hname : name ∉ keys entries ↔ get? entries name = none := by simp [mem_keys_iff]
  rw [← hname]
  exact List.nodup_cons

theorem get?_of_mem {entries : List (String × α)} (hkeys : (keys entries).Nodup) {name : String}
    {value : α} (h : (name, value) ∈ entries) : get? entries name = some value := by
  induction entries with
  | nil => cases h
  | cons e rest ih =>
    obtain ⟨k, v⟩ := e
    obtain ⟨hk, hrest⟩ := nodup_keys_cons.mp hkeys
    rcases List.mem_cons.mp h with heq | h
    · cases heq
      rw [get?_cons, if_pos rfl]
    · have hne : k ≠ name := by
        rintro rfl
        rw [ih hrest h] at hk
        cases hk
      rw [get?_cons, if_neg hne]
      exact ih hrest h

theorem keys_insert_of_mem {entries : List (String × α)} {name : String} (value : α)
    (h : name ∈ keys entries) : keys (insert entries name value) = keys entries := by
  induction entries with
  | nil => simp [keys] at h
  | cons e rest ih =>
    obtain ⟨k, v⟩ := e
    by_cases hk : k = name
    · simp [insert, keys, hk]
    · have hn : name ≠ k := fun e => hk e.symm
      have : name ∈ keys rest := by simpa [keys, hn] using h
      simpa [insert, keys, hk] using ih this

theorem keys_insert_of_not_mem {entries : List (String × α)} {name : String} (value : α)
    (h : name ∉ keys entries) : keys (insert entries name value) = keys entries ++ [name] := by
  induction entries with
  | nil => simp [insert, keys]
  | cons e rest ih =>
    obtain ⟨k, v⟩ := e
    have hk : k ≠ name := fun e => h (by simp [keys, e])
    have : name ∉ keys rest := fun m => h (by simpa [keys] using Or.inr (by simpa [keys] using m))
    simpa [insert, keys, hk] using ih this

/-- Removing an entry leaves the others, in some order. -/
theorem perm_swapRemove (entries : List (String × α)) (name : String) :
    entries.Perm (optional name (get? entries name) ++ swapRemove entries name) := by
  induction entries with
  | nil => exact .nil
  | cons e rest ih =>
    obtain ⟨k, v⟩ := e
    rw [swapRemove, get?_cons]
    split
    · next hk =>
      subst hk
      refine .cons _ ?_
      -- the last entry of the rest has moved to its front
      cases hlast : rest.getLast? with
      | none =>
        rw [List.getLast?_eq_none_iff.mp hlast]
        exact .nil
      | some last =>
        obtain ⟨front, rfl⟩ := List.getLast?_eq_some_iff.mp hlast
        rw [List.dropLast_concat]
        exact List.perm_append_singleton last front
    · exact (ih.cons (k, v)).trans List.perm_middle.symm

theorem mem_of_mem_swapRemove {entries : List (String × α)} {name : String}
    {e : String × α} (h : e ∈ swapRemove entries name) : e ∈ entries :=
  (perm_swapRemove entries name).mem_iff.mpr (List.mem_append_right _ h)

/-- What is removed, and what is left, of entries that are laid out with a name first. -/
theorem swapRemove_of_perm {entries rest : List (String × α)} {name : String} {value? : Option α}
    (h : entries.Perm (optional name value? ++ rest)) (hrest : name ∉ keys rest) :
    get? entries name = value? ∧ (swapRemove entries name).Perm rest := by
  have hget : get? entries name = value? := by
    cases hentry : get? entries name with
    | none =>
      cases value? with
      | none => rfl
      | some value =>
        have hname : name ∈ keys entries :=
          List.mem_map.mpr ⟨(name, value), h.mem_iff.mpr List.mem_cons_self, rfl⟩
        rw [mem_keys_iff, hentry] at hname
        cases hname
    | some found =>
      have hfound := h.mem_iff.mp (mem_of_get? hentry)
      have hother : (name, found) ∉ rest := fun hmem => hrest (List.mem_map.mpr ⟨_, hmem, rfl⟩)
      cases value? with
      | none => exact (hother hfound).elim
      | some value =>
        rcases List.mem_cons.mp hfound with heq | hmem
        · cases heq
          rfl
        · exact (hother hmem).elim
  refine ⟨hget, ?_⟩
  have hboth := (perm_swapRemove entries name).symm.trans h
  rw [hget] at hboth
  exact (List.perm_append_left_iff _).mp hboth

/-- Entries of distinct names are those of one name and those of the others. -/
theorem perm_filter_ne {entries : List (String × α)} (h : (keys entries).Nodup) (name : String) :
    entries.Perm (optional name (get? entries name) ++ entries.filter (·.1 ≠ name)) := by
  induction entries with
  | nil => exact .nil
  | cons e rest ih =>
    obtain ⟨k, v⟩ := e
    obtain ⟨hk, hrest⟩ := nodup_keys_cons.mp h
    rw [get?_cons, List.filter_cons]
    split
    · next hname =>
      subst hname
      have hall : rest.filter (·.1 ≠ k) = rest := by
        refine List.filter_eq_self.mpr fun e he => decide_eq_true ?_
        rintro rfl
        have hmem : e.1 ∈ keys rest := List.mem_map.mpr ⟨e, he, rfl⟩
        rw [mem_keys_iff, hk] at hmem
        cases hmem
      rw [if_neg (by simp), hall]
      exact .refl _
    · next hname =>
      rw [if_pos (by simpa using hname)]
      exact ((ih hrest).cons (k, v)).trans List.perm_middle.symm

theorem swapRemove_map {β : Type} (f : String → α → β) (entries : List (String × α))
    (name : String) : swapRemove (entries.map fun e => (e.1, f e.1 e.2)) name =
      (swapRemove entries name).map fun e => (e.1, f e.1 e.2) := by
  induction entries with
  | nil => rfl
  | cons e rest ih =>
    obtain ⟨k, v⟩ := e
    rw [List.map_cons, swapRemove, swapRemove]
    split
    · rw [List.getLast?_map, ← List.map_dropLast]
      cases rest.getLast? <;> rfl
    · rw [ih, List.map_cons]

theorem get?_map {β : Type} (f : String → α → β) (entries : List (String × α)) (name : String) :
    get? (entries.map fun e => (e.1, f e.1 e.2)) name = (get? entries name).map (f name) := by
  induction entries with
  | nil => rfl
  | cons e rest ih =>
    obtain ⟨k, v⟩ := e
    rw [List.map_cons, get?_cons, get?_cons]
    split
    · next hk => rw [hk, Option.map_some]
    · exact ih

theorem insert_of_not_mem {entries : List (String × α)} {name : String} (value : α)
    (h : name ∉ keys entries) : insert entries name value = entries ++ [(name, value)] := by
  induction entries with
  | nil => rfl
  | cons e rest ih =>
    obtain ⟨k, v⟩ := e
    obtain ⟨hk, hrest⟩ := not_or.mp (mt List.mem_cons.mpr h)
    rw [insert, if_neg (Ne.symm hk), ih hrest, List.cons_append]

@[simp] theorem insert_insert_self (entries : List (String × α)) (name : String) (v w : α) :
    insert (insert entries name v) name w = insert entries name w := by
  induction entries with
  | nil => simp [insert]
  | cons e rest ih =>
    obtain ⟨k, x⟩ := e
    by_cases hk : k = name <;> simp [insert, hk, ih]

/-- Setting an entry to the value that it has changes nothing. -/
theorem insert_of_get? {entries : List (String × α)} {name : String} {value : α}
    (h : get? entries name = some value) : insert entries name value = entries := by
  induction entries with
  | nil => simp at h
  | cons e rest ih =>
    obtain ⟨k, v⟩ := e
    rw [get?_cons] at h
    rw [insert]
    split at h
    · next hk => rw [if_pos hk, Option.some.inj h]
    · next hk => rw [if_neg hk, ih h]

/-- Where an entry is set does not depend on its value. -/
theorem exists_insert_eq (entries : List (String × α)) (name : String) :
    ∃ before after, ∀ value, insert entries name value = before ++ (name, value) :: after := by
  induction entries with
  | nil => exact ⟨[], [], fun _ => rfl⟩
  | cons e rest ih =>
    obtain ⟨k, v⟩ := e
    by_cases hk : k = name
    · exact ⟨[], rest, fun value => by rw [insert, if_pos hk, hk, List.nil_append]⟩
    · obtain ⟨before, after, h⟩ := ih
      refine ⟨(k, v) :: before, after, fun value => ?_⟩
      rw [insert, if_neg hk, h value, List.cons_append]

/-- Two entries set in either order are the same entries; new ones stand in the order in which they
were set. -/
theorem insert_insert_perm (entries : List (String × α)) {name other : String} (h : name ≠ other)
    (v w : α) : (insert (insert entries name v) other w).Perm
      (insert (insert entries other w) name v) := by
  induction entries with
  | nil =>
    simpa [insert, h, h.symm] using List.Perm.swap (other, w) (name, v) []
  | cons e rest ih =>
    obtain ⟨k, x⟩ := e
    by_cases hname : k = name
    · subst hname
      simp [insert, h]
    · by_cases hother : k = other
      · subst hother
        simp [insert, hname]
      · simpa [insert, hname, hother] using ih

/-- Setting an entry of a table of lists replaces the items of that entry. -/
theorem length_flatMap_insert {β : Type} (entries : List (String × List β)) (name : String)
    (items : List β) :
    ((insert entries name items).flatMap (·.2)).length + ((get? entries name).getD []).length =
      (entries.flatMap (·.2)).length + items.length := by
  induction entries with
  | nil => simp [insert]
  | cons e rest ih =>
    obtain ⟨k, v⟩ := e
    rw [insert, get?_cons]
    split
    · simp only [List.flatMap_cons, List.length_append, Option.getD_some]
      omega
    · simp only [List.flatMap_cons, List.length_append]
      omega

theorem nodup_keys_insert {entries : List (String × α)} (h : (keys entries).Nodup) (name : String)
    (value : α) : (keys (insert entries name value)).Nodup := by
  by_cases hname : name ∈ keys entries
  · rwa [keys_insert_of_mem value hname]
  · rw [keys_insert_of_not_mem value hname]
    refine List.nodup_append.mpr ⟨h, List.nodup_cons.mpr ⟨List.not_mem_nil, List.nodup_nil⟩, ?_⟩
    rintro k hk _ hk' rfl
    exact hname (List.mem_singleton.mp hk' ▸ hk)

theorem get?_foldl_insert_of_ne {pairs : List (String × α)} {name : String}
    (h : ∀ e ∈ pairs, e.1 ≠ name) : ∀ entries : List (String × α),
    get? (pairs.foldl (fun es e => insert es e.1 e.2) entries) name = get? entries name := by
  induction pairs with
  | nil => exact fun _ => rfl
  | cons e rest ih =>
    intro entries
    obtain ⟨he, hrest⟩ := List.forall_mem_cons.mp h
    rw [List.foldl_cons, ih hrest, get?_insert_of_ne _ _ he]

/-- The last one counts of the entries of a name. -/
theorem get?_ofPairs_append_cons (before : List (String × α)) (name : String) (value : α)
    {after : List (String × α)} (h : ∀ e ∈ after, e.1 ≠ name) :
    get? (ofPairs (before ++ (name, value) :: after)) name = some value := by
  rw [ofPairs, List.foldl_append, List.foldl_cons, get?_foldl_insert_of_ne h, get?_insert_self]

/-- Entries set one after the other have distinct names. -/
theorem nodup_keys_ofPairs (pairs : List (String × α)) : (keys (ofPairs pairs)).Nodup := by
  have haux : ∀ (pairs entries : List (String × α)), (keys entries).Nodup →
      (keys (pairs.foldl (fun es e => insert es e.1 e.2) entries)).Nodup := by
    intro pairs
    induction pairs with
    | nil => exact fun _ h => h
    | cons e rest ih => exact fun entries h => ih _ (nodup_keys_insert h e.1 e.2)
  exact haux pairs [] List.nodup_nil

/-- Entries of distinct names are set in their order. -/
theorem ofPairs_of_nodup {pairs : List (String × α)} (h : (keys pairs).Nodup) :
    ofPairs pairs = pairs := by
  have haux : ∀ (pairs entries : List (String × α)), (keys (entries ++ pairs)).Nodup →
      pairs.foldl (fun es e => insert es e.1 e.2) entries = entries ++ pairs := by
    intro pairs
    induction pairs with
    | nil => exact fun entries _ => (List.append_nil entries).symm
    | cons e rest ih =>
      intro entries h
      have hnew : e.1 ∉ keys entries := by
        rw [keys, List.map_append, List.map_cons] at h
        exact fun hmem => (List.nodup_append.mp h).2.2 e.1 hmem e.1 List.mem_cons_self rfl
      have happend : entries ++ e :: rest = (entries ++ [e]) ++ rest := by simp
      rw [List.foldl_cons, insert_of_not_mem e.2 hnew, happend]
      exact ih _ (happend ▸ h)
  exact haux pairs [] h

end StateFlow.Entries
