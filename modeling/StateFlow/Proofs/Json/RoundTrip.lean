import StateFlow.Proofs.Json.Printer

/-!
# What is printed is read back

In every layout the text of a document is read as the document, provided that its numbers are read
back, its objects have distinct names and it does not nest too deeply.

## Main definitions

* `Readable`: a document that can be read back from its text
* `Reader.Accepts`: a text that leads the reader from one place between two tokens to another

## Main results

* `read?_compact`, `read?_indented`: the texts are read as the document
-/

namespace StateFlow

theorem Entries.not_mem_keys_of_nodup_append {α : Type} {before after : List (String × α)}
    {name : String} {value : α} (h : (keys (before ++ (name, value) :: after)).Nodup) :
    name ∉ keys before := by
  rw [keys, List.map_append, List.map_cons] at h
  exact fun hmem => (List.nodup_append.mp h).2.2 name hmem name List.mem_cons_self rfl

namespace Json

/-! ## Texts are read back -/

mutual

/-- The document can be read back from its text: its numbers are read back, its objects have
distinct names, and it nests at most `depth` deep. -/
def Readable (depth : Nat) : Json → Prop
  | number n => Number.read? n.chars = some n
  | array xs => 0 < depth ∧ ReadableItems (depth - 1) xs
  | object es => 0 < depth ∧ (Entries.keys es).Nodup ∧ ReadableEntries (depth - 1) es
  | _ => True

/-- Every item can be read back. -/
def ReadableItems (depth : Nat) : List Json → Prop
  | [] => True
  | x :: xs => Readable depth x ∧ ReadableItems depth xs

/-- Every value can be read back. -/
def ReadableEntries (depth : Nat) : List (String × Json) → Prop
  | [] => True
  | (_, v) :: es => Readable depth v ∧ ReadableEntries depth es

end

namespace Reader

variable {m : Nat} {r q q' : Reader} {c : Char} {cs ds : List Char}

/-- Reading the text and ending its last token leads from one reader to another. -/
def Accepts (m : Nat) (r : Reader) (cs : List Char) (q : Reader) : Prop :=
  ∃ r', run m r cs = some r' ∧ r'.endToken = some q

theorem endToken_of_between (hr : r.lexeme = .between) : r.endToken = some r := by
  simp [endToken, hr]

theorem accepts_of_run (h : run m r cs = some q) (hq : q.lexeme = .between) : Accepts m r cs q :=
  ⟨q, h, endToken_of_between hq⟩

/-- A character that cannot go on with the last token ends it. -/
theorem Accepts.append_cons (h : Accepts m r cs q) (hc : goesOn c = false)
    (hrest : Accepts m q (c :: ds) q') : Accepts m r (cs ++ c :: ds) q' := by
  obtain ⟨r₁, hrun, hend⟩ := h
  obtain ⟨r₂, hrest, hend₂⟩ := hrest
  refine ⟨r₂, ?_, hend₂⟩
  rw [run_append, hrun, Option.bind_some, run_cons, step_eq_of_endToken hend hc, ← run_cons, hrest]

theorem Accepts.cons (hstep : step m r c = some q) (h : Accepts m q cs q') :
    Accepts m r (c :: cs) q' := by
  obtain ⟨r', hrun, hend⟩ := h
  exact ⟨r', by rw [run_cons, hstep, Option.bind_some, hrun], hend⟩

theorem run_blanks (hr : r.lexeme = .between) (h : ∀ c ∈ cs, isBlank c = true) :
    run m r cs = some r := by
  induction cs with
  | nil => rfl
  | cons c cs ih =>
    obtain ⟨hc, hcs⟩ := List.forall_mem_cons.mp h
    have hstep : step m r c = some r := by
      simp only [step, hr, stepBetween, hc, if_true]
      rw [← hr]
    rw [run_cons, hstep, Option.bind_some, ih hcs]

theorem Accepts.blanks (hr : r.lexeme = .between) (hcs : ∀ c ∈ cs, isBlank c = true)
    (h : Accepts m r ds q) : Accepts m r (cs ++ ds) q := by
  obtain ⟨r', hrun, hend⟩ := h
  exact ⟨r', by rw [run_append, run_blanks hr hcs, Option.bind_some, hrun], hend⟩

theorem goesOn_of_isBlank (h : isBlank c = true) : goesOn c = false := by
  simp only [isBlank, Bool.or_eq_true, decide_eq_true_eq] at h
  rcases h with ((rfl | rfl) | rfl) | rfl <;> rfl

/-- Blanks and then a character that cannot go on with the last token. -/
theorem Accepts.append_blanks_cons {es : List Char} (h : Accepts m r cs q)
    (hds : ∀ c ∈ ds, isBlank c = true) (hc : goesOn c = false)
    (hrest : Accepts m q (c :: es) q') : Accepts m r (cs ++ ds ++ c :: es) q' := by
  obtain ⟨r₁, -, hend⟩ := id h
  have hq := lexeme_of_endToken hend
  rw [List.append_assoc]
  cases ds with
  | nil => exact h.append_cons hc hrest
  | cons d ds =>
    exact h.append_cons (goesOn_of_isBlank (hds d List.mem_cons_self)) (hrest.blanks hq hds)

theorem run_number (characters : List Char) (h : ∀ c ∈ cs, isNumberChar c = true) :
    run m { r with lexeme := .number characters } cs =
      some { r with lexeme := .number (cs.reverse ++ characters) } := by
  induction cs generalizing characters with
  | nil => rfl
  | cons c cs ih =>
    obtain ⟨hc, hcs⟩ := List.forall_mem_cons.mp h
    simp [step, hc, ih _ hcs]

theorem accepts_number {n : Number} (hr : r.lexeme = .between) (hexpects : r.ExpectsValue)
    (hread : Number.read? n.chars = some n) : Accepts m r n.chars (placed r.stack (.number n)) := by
  obtain ⟨⟨c, cs, hchars, hc⟩, hall⟩ := n.looks_chars
  have hrest : ∀ d ∈ cs, isNumberChar d = true := fun d hd => hall d (by simp [hchars, hd])
  have hne (d : Char) (hd : (Number.isDigit d || d = '-') = false) : c ≠ d := by
    rintro rfl
    simp [hd] at hc
  have hstep : step m r c = some { r with lexeme := .number [c] } := by
    simp only [step, hr, stepBetween, isBlank, hc, hne ' ' rfl, hne '\n' rfl, hne '\t' rfl,
      hne '\r' rfl, hne '"' rfl, hne '[' rfl, hne ']' rfl, hne '\x7b' rfl, hne '\x7d' rfl,
      hne ',' rfl, hne ':' rfl]
    rfl
  refine ⟨_, by rw [hchars, run_cons, hstep, Option.bind_some, run_number _ hrest], ?_⟩
  have hpush : push { r with lexeme := .between } (.number n) = some (placed r.stack (.number n)) :=
    push_eq_some_iff.mpr ⟨hexpects, rfl⟩
  simp [endToken, ← hchars, hread, hpush]

theorem pushText_of_expectsValue (hexpects : r.ExpectsValue) (s : String) :
    r.pushText s = some (placed r.stack (.string s)) := by
  have hpush : r.push (.string s) = some (placed r.stack (.string s)) :=
    push_eq_some_iff.mpr ⟨hexpects, rfl⟩
  unfold pushText
  split
  · next h _ => simp [ExpectsValue, h] at hexpects
  · next h _ => simp [ExpectsValue, h] at hexpects
  · exact hpush

theorem accepts_string (hr : r.lexeme = .between) (hexpects : r.ExpectsValue) (s : String) :
    Accepts m r (quoted s) (placed r.stack (.string s)) :=
  accepts_of_run ((run_quoted hr s).trans (pushText_of_expectsValue hexpects s)) (lexeme_placed _ _)

theorem accepts_word {word : List Char} {v : Json} (hword : ofWord? word = some v)
    (hr : r.lexeme = .between) (hexpects : r.ExpectsValue) :
    Accepts m r word (placed r.stack v) := by
  have hpush : push { r with lexeme := .between } v = some (placed r.stack v) :=
    push_eq_some_iff.mpr ⟨hexpects, rfl⟩
  refine ⟨{ r with lexeme := .word word.reverse }, ?_, by simp [endToken, hword, hpush]⟩
  unfold ofWord? at hword
  split at hword
  · next h => subst h; simp [step, hr, stepBetween, isBlank, Number.isDigit, isLetter]
  split at hword
  · next h => subst h; simp [step, hr, stepBetween, isBlank, Number.isDigit, isLetter]
  split at hword
  · next h => subst h; simp [step, hr, stepBetween, isBlank, Number.isDigit, isLetter]
  · cases hword

theorem step_open (hr : r.lexeme = .between) (hexpects : r.ExpectsValue)
    (hdepth : r.stack.length < m) :
    step m r '[' = some ⟨.between, .firstItem, .array [] :: r.stack⟩ ∧
      step m r '\x7b' = some ⟨.between, .firstName, .object [] "" :: r.stack⟩ := by
  obtain hexpects | hexpects := hexpects <;>
    simp [step, hr, stepBetween, isBlank, openFrame, hexpects, hdepth]

theorem accepts_close_array (items : List Json) (stack : List Frame) (e : Expecting)
    (he : e = .firstItem ∨ e = .separator) :
    Accepts m ⟨.between, e, .array items :: stack⟩ [']'] (placed stack (.array items.reverse)) := by
  have hpush : push ⟨.between, .value, stack⟩ (.array items.reverse) =
      some (placed stack (.array items.reverse)) := push_eq_some_iff.mpr ⟨.inl rfl, rfl⟩
  refine accepts_of_run ?_ (lexeme_placed _ _)
  rcases he with rfl | rfl <;> simp [step, stepBetween, isBlank, closeArray, hpush]

theorem accepts_close_object (entries : List (String × Json)) (name : String) (stack : List Frame)
    (e : Expecting) (he : e = .firstName ∨ e = .separator) :
    Accepts m ⟨.between, e, .object entries name :: stack⟩ ['\x7d']
      (placed stack (.object entries)) := by
  have hpush : push ⟨.between, .value, stack⟩ (.object entries) =
      some (placed stack (.object entries)) := push_eq_some_iff.mpr ⟨.inl rfl, rfl⟩
  refine accepts_of_run ?_ (lexeme_placed _ _)
  rcases he with rfl | rfl <;> simp [step, stepBetween, isBlank, closeObject, hpush]

/-- A name where one may stand, and the value after its colon. -/
theorem accepts_name {entries : List (String × Json)} {name : String} {stack : List Frame}
    {e : Expecting} (he : e = .firstName ∨ e = .name) (k : String)
    (h : Accepts m ⟨.between, .value, .object entries k :: stack⟩ cs q) :
    Accepts m ⟨.between, e, .object entries name :: stack⟩ (quoted k ++ ':' :: cs) q := by
  have hname : Accepts m ⟨.between, e, .object entries name :: stack⟩ (quoted k)
      ⟨.between, .colon, .object entries k :: stack⟩ := by
    refine accepts_of_run ?_ rfl
    rw [run_quoted rfl]
    rcases he with rfl | rfl <;> rfl
  exact hname.append_cons rfl (.cons rfl h)

end Reader

open Reader

/-- An entry with a new name. -/
theorem Layout.accepts_entry (l : Layout) (depth : Nat) {m : Nat} {k : String} {v : Json}
    {acc : List (String × Json)} (name : String) {stack : List Frame} {e : Expecting}
    (hnew : k ∉ Entries.keys acc) (he : e = .firstName ∨ e = .name)
    (hv : Accepts m ⟨.between, .value, .object acc k :: stack⟩ (l.chars depth v)
      (placed (.object acc k :: stack) v)) :
    Accepts m ⟨.between, e, .object acc name :: stack⟩
      (l.gap depth ++ (quoted k ++ ':' :: (l.space ++ l.chars depth v)))
      ⟨.between, .separator, .object (acc ++ [(k, v)]) k :: stack⟩ := by
  rw [placed, Entries.insert_of_not_mem v hnew] at hv
  exact (accepts_name he k (hv.blanks rfl l.space_blank)).blanks rfl (l.gap_blank depth)

mutual

theorem Layout.accepts_chars (l : Layout) (depth : Nat) : ∀ (v : Json) {m d : Nat} {r : Reader},
    v.Readable d → r.lexeme = .between → r.ExpectsValue → r.stack.length + d ≤ m →
      Accepts m r (l.chars depth v) (placed r.stack v)
  | array [], m, d, r, hv, hr, hexpects, hdepth => by
    have hopen := (step_open hr hexpects (by have := hv.1; omega : r.stack.length < m)).1
    exact .cons hopen (accepts_close_array [] r.stack _ (.inl rfl))
  | object [], m, d, r, hv, hr, hexpects, hdepth => by
    have hopen := (step_open hr hexpects (by have := hv.1; omega : r.stack.length < m)).2
    exact .cons hopen (accepts_close_object [] "" r.stack _ (.inl rfl))
  | array (x :: xs), m, d, r, hv, hr, hexpects, hdepth => by
    obtain ⟨hpos, hxs⟩ := hv
    have hopen := (step_open hr hexpects (by omega : r.stack.length < m)).1
    have hitems := l.accepts_items (depth + 1) (x :: xs) (List.cons_ne_nil x xs) [] r.stack
      .firstItem hxs (.inr rfl) (by omega : r.stack.length + 1 + (d - 1) ≤ m)
    have hclose := accepts_close_array (m := m) ((x :: xs).reverse ++ []) r.stack _ (.inr rfl)
    rw [List.append_nil, List.reverse_reverse] at hclose
    exact .cons hopen (hitems.append_blanks_cons (l.gap_blank depth) rfl (by simpa using hclose))
  | object (e :: es), m, d, r, hv, hr, hexpects, hdepth => by
    obtain ⟨hpos, hkeys, hes⟩ := hv
    have hopen := (step_open hr hexpects (by omega : r.stack.length < m)).2
    obtain ⟨name, hentries⟩ := l.accepts_entries (depth + 1) (e :: es) (List.cons_ne_nil e es)
      [] "" r.stack .firstName hes hkeys (.inl rfl)
      (by omega : r.stack.length + 1 + (d - 1) ≤ m)
    exact .cons hopen (hentries.append_blanks_cons (l.gap_blank depth) rfl
      (accepts_close_object _ name r.stack _ (.inr rfl)))
  | null, _, _, _, _, hr, hexpects, _ => accepts_word rfl hr hexpects
  | boolean true, _, _, _, _, hr, hexpects, _ => accepts_word rfl hr hexpects
  | boolean false, _, _, _, _, hr, hexpects, _ => accepts_word rfl hr hexpects
  | number _, _, _, _, hv, hr, hexpects, _ => accepts_number hr hexpects hv
  | string s, _, _, _, _, hr, hexpects, _ => accepts_string hr hexpects s

theorem Layout.accepts_items (l : Layout) (depth : Nat) : ∀ (xs : List Json), xs ≠ [] →
    ∀ {m d : Nat} (acc : List Json) (stack : List Frame) (e : Expecting), ReadableItems d xs →
      e = .value ∨ e = .firstItem → stack.length + 1 + d ≤ m →
        Accepts m ⟨.between, e, .array acc :: stack⟩ (l.items depth xs)
          ⟨.between, .separator, .array (xs.reverse ++ acc) :: stack⟩
  | [x], _, m, d, acc, stack, e, hxs, he, hdepth =>
    (l.accepts_chars depth x (r := ⟨.between, e, .array acc :: stack⟩) hxs.1 rfl he hdepth).blanks
      rfl (l.gap_blank depth)
  | x :: y :: xs, _, m, d, acc, stack, e, hxs, he, hdepth => by
    have hx := (l.accepts_chars depth x (r := ⟨.between, e, .array acc :: stack⟩) hxs.1 rfl he
      hdepth).blanks rfl (l.gap_blank depth)
    have hrest := l.accepts_items depth (y :: xs) (List.cons_ne_nil y xs) (x :: acc) stack .value
      hxs.2 (.inl rfl) hdepth
    have happend : (x :: y :: xs).reverse ++ acc = (y :: xs).reverse ++ x :: acc := by simp
    rw [happend]
    exact hx.append_cons rfl (.cons rfl hrest)

theorem Layout.accepts_entries (l : Layout) (depth : Nat) :
    ∀ (es : List (String × Json)), es ≠ [] →
      ∀ {m d : Nat} (acc : List (String × Json)) (name : String) (stack : List Frame)
        (e : Expecting), ReadableEntries d es → (Entries.keys (acc ++ es)).Nodup →
        e = .firstName ∨ e = .name → stack.length + 1 + d ≤ m →
        ∃ name', Accepts m ⟨.between, e, .object acc name :: stack⟩ (l.entries depth es)
          ⟨.between, .separator, .object (acc ++ es) name' :: stack⟩
  | [(k, v)], _, m, d, acc, name, stack, e, hes, hkeys, he, hdepth => by
    have hnew := Entries.not_mem_keys_of_nodup_append hkeys
    have hentry := l.accepts_entry depth name hnew he
      (l.accepts_chars depth v (r := ⟨.between, .value, .object acc k :: stack⟩) hes.1 rfl
        (.inl rfl) hdepth)
    rw [← List.append_assoc] at hentry
    exact ⟨k, hentry⟩
  | (k, v) :: e' :: es, _, m, d, acc, name, stack, e, hes, hkeys, he, hdepth => by
    have hnew := Entries.not_mem_keys_of_nodup_append hkeys
    have hentry := l.accepts_entry depth name hnew he
      (l.accepts_chars depth v (r := ⟨.between, .value, .object acc k :: stack⟩) hes.1 rfl
        (.inl rfl) hdepth)
    obtain ⟨name', hrest⟩ := l.accepts_entries depth (e' :: es) (List.cons_ne_nil e' es)
      (acc ++ [(k, v)]) k stack .name hes.2 (by simpa using hkeys) (.inr rfl) hdepth
    refine ⟨name', ?_⟩
    have happend := hentry.append_cons (c := ',') rfl (.cons rfl hrest)
    simpa [Layout.entries] using happend

end

theorem Layout.readWithin?_chars (l : Layout) (depth : Nat) {v : Json} {d : Nat}
    (hv : v.Readable d) : readWithin? d (l.chars depth v) = some v := by
  obtain ⟨r, hrun, hend⟩ := l.accepts_chars depth v (m := d) (r := .start) hv rfl (.inl rfl)
    (by simp [start])
  rw [readWithin?, hrun, Option.bind_some, finish, hend]
  rfl

/-- **A document is read back from its one-line text.** -/
theorem read?_compact {v : Json} (hv : v.Readable maxDepth) : read? v.compact = some v := by
  rw [read?, compact, String.toList_ofList, ← chars_oneLine 0]
  exact Layout.oneLine.readWithin?_chars 0 hv

/-- **A document is read back from its indented text.** -/
theorem read?_indented {v : Json} (hv : v.Readable maxDepth) : read? v.indented = some v := by
  rw [read?, indented, String.toList_ofList, ← chars_indenting 0]
  exact Layout.indenting.readWithin?_chars 0 hv

end Json

end StateFlow
