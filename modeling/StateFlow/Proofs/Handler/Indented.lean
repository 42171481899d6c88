import StateFlow.Proofs.Handler.Output

/-!
# A result on several lines after a log

The lines are looked at one by one, so an indented result after a log is not found as a whole.  What
is found in its place is an item of it: a line of the indented text is a document exactly when it
holds the last item of an array and that item takes one line.  Such an item is mistaken for the
result; a result without one is not found, and a result on one line is found.

## Main definitions

* `Json.spreads`: the document takes several lines
* `Json.LastOfArray`: an item that is the last of an array, at any depth
* `Json.lone`: the last items of arrays that take one line, in their order

## Main results

* `Handler.documents_indented`: the documents that stand on lines of an indented text
* `Handler.readOutput?_indented`: what is read from an indented result after a log
* `Handler.mistaken_iff`: when the result or none is read
-/

namespace StateFlow

namespace Json

/-- The indented text takes several lines. -/
def spreads : Json → Bool
  | array (_ :: _) | object (_ :: _) => true
  | _ => false

/-- The item is the last of an array, at any depth. -/
inductive LastOfArray (x : Json) : Json → Prop
  | last {items : List Json} (h : items.getLast? = some x) : LastOfArray x (array items)
  | item {items : List Json} {y : Json} (hy : y ∈ items) (h : LastOfArray x y) :
      LastOfArray x (array items)
  | value {entries : List (String × Json)} {e : String × Json} (he : e ∈ entries)
      (h : LastOfArray x e.2) : LastOfArray x (object entries)

mutual

/-- The last items of arrays, at any depth, that take one line. -/
def lone : Json → List Json
  | array xs => loneItems xs
  | object es => loneEntries es
  | _ => []

/-- Those of the items, and of their array. -/
def loneItems : List Json → List Json
  | [] => []
  | [x] => if x.spreads then lone x else [x]
  | x :: y :: xs => lone x ++ loneItems (y :: xs)

/-- Those of the values. -/
def loneEntries : List (String × Json) → List Json
  | [] => []
  | (_, v) :: es => lone v ++ loneEntries es

end

theorem lone_eq_nil {v : Json} (h : v.spreads = false) : v.lone = [] := by
  match v with
  | array [] | object [] | null | boolean _ | number _ | string _ => rfl

theorem mem_loneItems_iff {x : Json} {xs : List Json} :
    x ∈ loneItems xs ↔ (xs.getLast? = some x ∧ x.spreads = false) ∨ ∃ y ∈ xs, x ∈ y.lone := by
  induction xs with
  | nil => simp [loneItems]
  | cons y xs ih =>
    cases xs with
    | cons z xs => simp [loneItems, ih, or_left_comm]
    | nil =>
      cases hspreads : y.spreads
      · have hself : x = y ↔ y = x ∧ x.spreads = false :=
          ⟨fun h => ⟨h.symm, h ▸ hspreads⟩, fun h => h.1.symm⟩
        simpa [loneItems, hspreads, lone_eq_nil hspreads] using hself
      · have hother : ¬ (y = x ∧ x.spreads = false) := fun h => by simp [h.1 ▸ hspreads] at h
        simp [loneItems, hspreads, hother]

theorem mem_loneEntries_iff {x : Json} {es : List (String × Json)} :
    x ∈ loneEntries es ↔ ∃ e ∈ es, x ∈ e.2.lone := by
  induction es with
  | nil => simp [loneEntries]
  | cons e es ih => simp [loneEntries, ih]

theorem lastOfArray_array_iff {x : Json} {xs : List Json} :
    LastOfArray x (array xs) ↔ xs.getLast? = some x ∨ ∃ y ∈ xs, LastOfArray x y := by
  constructor
  · intro h
    cases h with
    | last h => exact .inl h
    | item hy h => exact .inr ⟨_, hy, h⟩
  · rintro (h | ⟨y, hy, h⟩)
    · exact .last h
    · exact .item hy h

theorem lastOfArray_object_iff {x : Json} {es : List (String × Json)} :
    LastOfArray x (object es) ↔ ∃ e ∈ es, LastOfArray x e.2 := by
  constructor
  · intro h
    cases h with
    | value he h => exact ⟨_, he, h⟩
  · rintro ⟨e, he, h⟩
    exact .value he h

/-- The last items of arrays that take one line. -/
theorem mem_lone_iff {x v : Json} : x ∈ v.lone ↔ LastOfArray x v ∧ x.spreads = false := by
  induction v using Json.induction with
  | array xs ih =>
    rw [lone, mem_loneItems_iff, lastOfArray_array_iff, or_and_right]
    refine or_congr_right ?_
    constructor
    · rintro ⟨y, hy, h⟩
      obtain ⟨hlast, hspreads⟩ := (ih y hy).mp h
      exact ⟨⟨y, hy, hlast⟩, hspreads⟩
    · rintro ⟨⟨y, hy, hlast⟩, hspreads⟩
      exact ⟨y, hy, (ih y hy).mpr ⟨hlast, hspreads⟩⟩
  | object es ih =>
    rw [lone, mem_loneEntries_iff, lastOfArray_object_iff]
    constructor
    · rintro ⟨e, he, h⟩
      obtain ⟨hlast, hspreads⟩ := (ih e he).mp h
      exact ⟨⟨e, he, hlast⟩, hspreads⟩
    · rintro ⟨⟨e, he, hlast⟩, hspreads⟩
      exact ⟨e, he, (ih e he).mpr ⟨hlast, hspreads⟩⟩
  | scalar v hentries hitems =>
    have hnone : ¬ LastOfArray x v := by
      rintro ⟨⟩ <;> simp [entries?, items?] at hentries hitems
    have hspreads : v.spreads = false := by
      cases v with
      | array xs => cases hitems
      | object es => cases hentries
      | null | boolean _ | number _ | string _ => rfl
    simp [lone_eq_nil hspreads, hnone]

/-! ## Lines that are no documents -/

namespace Reader

variable {m : Nat} {c : Char} {cs : List Char}

/-- A document does not end with a comma or with an opening bracket. -/
theorem readWithin?_append_singleton (hc : c = ',' ∨ c = '[' ∨ c = '\x7b') :
    readWithin? m (cs ++ [c]) = none := by
  rw [readWithin?, run_append, Option.bind_assoc]
  refine Option.bind_eq_none_iff.mpr fun r _ => Option.bind_eq_none_iff.mpr fun r' hrun => ?_
  refine Option.eq_none_iff_forall_ne_some.mpr fun v hfinish => ?_
  obtain ⟨q', hq', hending⟩ := finish_eq_some hfinish
  have hstep : step m r c = some r' := by simpa using hrun
  have hend := endToken_cases hq'
  cases hquoted : r.lexeme.isQuoted
  · obtain ⟨q, hq, hturn⟩ := turn_of_step hquoted (by obtain rfl | rfl | rfl := hc <;> rfl) hstep
    have hlexeme := lexeme_of_endToken hq
    cases hturn with
    | comma hstack hnext => obtain rfl | rfl := hnext <;> simp_all
    | openArray | openObject => simp_all
    | blank h | number h | word h => obtain rfl | rfl | rfl := hc <;> exact absurd h (by decide)
    | quote | closeArray | closeObject | colon => simp at hc
  · obtain ⟨l, hl, rfl⟩ | ⟨s, rfl, -⟩ := step_of_isQuoted hquoted hstep
    · obtain ⟨h, -⟩ | ⟨-, h, -⟩ := hend
      · exact Lexeme.ne_between_of_isQuoted hl h
      · exact absurd (hl.symm.trans h) (by decide)
    · simp at hc

theorem readWithin?_cons (hc : c = ']' ∨ c = '\x7d') : readWithin? m (c :: cs) = none := by
  obtain rfl | rfl := hc <;> rfl

theorem readWithin?_quoted_colon (s : String) : readWithin? m (quoted s ++ ':' :: cs) = none := by
  rw [readWithin?, run_append, run_quoted rfl]
  rfl

end Reader

theorem readable_of_not_spreads {v : Json} {d : Nat} (h : v.spreads = false) (hv : v.Readable d) :
    v.Readable maxDepth := by
  match v with
  | array [] => exact ⟨by decide, trivial⟩
  | object [] => exact ⟨by decide, by decide, trivial⟩
  | null | boolean _ | string _ => trivial
  | number _ => exact hv

theorem indentedChars_of_not_spreads {v : Json} (h : v.spreads = false) (depth : Nat) :
    v.indentedChars depth = v.compactChars := by
  match v with
  | array [] | object [] | null | boolean true | boolean false | number _ | string _ => rfl

end Json

namespace Handler

open Json

variable {cs line rest blanks : List Char}

/-! ## The lines of an indented text -/

/-- Nothing, or the next line. -/
def AtLineEnd (rest : List Char) : Prop := rest = [] ∨ ∃ ds, rest = '\n' :: ds

theorem documents_newline (cs : List Char) : documents ('\n' :: cs) = documents cs :=
  documents_cons_blank rfl cs

theorem documents_line_append (h : '\n' ∉ line) (hrest : AtLineEnd rest) :
    documents (line ++ rest) = (readLine? line).toList ++ documents rest := by
  obtain rfl | ⟨ds, rfl⟩ := hrest
  · simp [documents_of_not_mem h]
  · rw [documents_line h, documents_newline]

/-- The blanks in front of a line. -/
def indentation (depth : Nat) : List Char := List.replicate (2 * depth) ' '

theorem newline_eq (depth : Nat) : newline depth = '\n' :: indentation depth := rfl

theorem isBlank_of_mem_indentation {depth : Nat} {c : Char} (h : c ∈ indentation depth) :
    Text.isBlank c = true :=
  List.eq_of_mem_replicate h ▸ rfl

theorem newline_not_mem_indentation (depth : Nat) : '\n' ∉ indentation depth := fun h =>
  absurd (List.eq_of_mem_replicate h) (by decide)

theorem readLine?_indentation_append (depth : Nat) (cs : List Char) :
    readLine? (indentation depth ++ cs) = readLine? cs :=
  readLine?_blanks_append (fun _ => isBlank_of_mem_indentation) cs

theorem readLine?_append_singleton {c : Char} (cs : List Char)
    (hc : c = ',' ∨ c = '[' ∨ c = '\x7b') : readLine? (cs ++ [c]) = none := by
  have hsolid : Text.Solid [c] :=
    Text.solid_singleton (by obtain rfl | rfl | rfl := hc <;> rfl)
  rw [readLine?, Text.trim_append_of_solid cs hsolid, Reader.readWithin?_append_singleton hc]

theorem readLine?_cons {c : Char} (hc : c = ']' ∨ c = '\x7d') (cs : List Char) :
    readLine? (c :: cs) = none := by
  have hsolid : Text.Solid [c] := Text.solid_singleton (by obtain rfl | rfl := hc <;> rfl)
  rw [readLine?, ← List.singleton_append, Text.trim_solid_append hsolid, List.singleton_append,
    Reader.readWithin?_cons hc]

theorem readLine?_quoted_colon (k : String) (cs : List Char) :
    readLine? (quoted k ++ ':' :: cs) = none := by
  have hcolon : Text.trimEnd (':' :: cs) = ':' :: Text.trimEnd cs :=
    Text.trimEnd_solid_append (Text.solid_singleton rfl) cs
  rw [readLine?, Text.trim_solid_append (solid_quoted k), hcolon, Reader.readWithin?_quoted_colon]

theorem readLine?_compactChars {x : Json} {d : Nat} (hspreads : x.spreads = false)
    (hx : x.Readable d) : readLine? x.compactChars = some x := by
  have hread := read?_compact (readable_of_not_spreads hspreads hx)
  rw [read?, compact, String.toList_ofList] at hread
  have hsolid : Text.Solid x.compactChars := chars_oneLine 0 x ▸ Layout.oneLine.solid_chars 0 x
  rw [readLine?, Text.trim_solid hsolid, hread]

/-- The part of a line before the value of an entry. -/
def entryStart (depth : Nat) (k : String) : List Char :=
  indentation depth ++ (quoted k ++ [':', ' '])

theorem newline_not_mem_entryStart (depth : Nat) (k : String) : '\n' ∉ entryStart depth k := by
  simp [entryStart, newline_not_mem_indentation, newline_not_mem_quoted]

theorem readLine?_entryStart_append (depth : Nat) (k : String) (cs : List Char) :
    readLine? (entryStart depth k ++ cs) = none := by
  rw [entryStart, List.append_assoc, readLine?_indentation_append, List.append_assoc,
    List.cons_append, readLine?_quoted_colon]

/-- The first and the last line of a bracketed text are no documents. -/
theorem documents_bracketed {o c : Char} {body before after : List Char} {found : List Json}
    {depth : Nat} (ho : o = '[' ∨ o = '\x7b') (hc : c = ']' ∨ c = '\x7d')
    (hbefore : '\n' ∉ before) (hafter : '\n' ∉ after) (hrest : AtLineEnd rest)
    (hbody : ∀ cs, AtLineEnd (body ++ cs))
    (hfound : ∀ cs, AtLineEnd cs → documents (body ++ cs) = found ++ documents cs) :
    documents (before ++ (o :: (body ++ newline depth ++ [c]) ++ (after ++ rest))) =
      found ++ documents rest := by
  have hfirst : readLine? (before ++ [o]) = none := readLine?_append_singleton before (.inr ho)
  have hlast : readLine? (indentation depth ++ (c :: after)) = none := by
    rw [readLine?_indentation_append, readLine?_cons hc]
  have ho' : '\n' ∉ before ++ [o] := by
    obtain rfl | rfl := ho <;> simp [hbefore]
  have hc' : '\n' ∉ indentation depth ++ (c :: after) := by
    obtain rfl | rfl := hc <;> simp [newline_not_mem_indentation, hafter]
  have htext : before ++ (o :: (body ++ newline depth ++ [c]) ++ (after ++ rest)) =
      (before ++ [o]) ++ (body ++ ('\n' :: (indentation depth ++ (c :: after) ++ rest))) := by
    simp [newline_eq]
  rw [htext, documents_line_append ho' (hbody _), hfirst, hfound _ (.inr ⟨_, rfl⟩),
    documents_newline, documents_line_append hc' hrest, hlast]
  rfl

theorem atLineEnd_items (depth : Nat) {xs : List Json} (h : xs ≠ []) (cs : List Char) :
    AtLineEnd (indentedItems depth xs ++ cs) := by
  match xs with
  | [x] | x :: y :: xs => exact .inr ⟨_, rfl⟩

theorem atLineEnd_entries (depth : Nat) {es : List (String × Json)} (h : es ≠ [])
    (cs : List Char) : AtLineEnd (indentedEntries depth es ++ cs) := by
  match es with
  | [(k, v)] | (k, v) :: e :: es => exact .inr ⟨_, rfl⟩

mutual

/-- An indented text of several lines, whatever else stands on its first and on its last line. -/
theorem documents_spread (depth : Nat) : ∀ (v : Json) {d : Nat} {before after rest : List Char},
    v.spreads = true → v.Readable d → '\n' ∉ before → '\n' ∉ after → AtLineEnd rest →
      documents (before ++ (v.indentedChars depth ++ (after ++ rest))) = v.lone ++ documents rest
  | array (x :: xs), _, _, _, _, _, hv, hbefore, hafter, hrest =>
    documents_bracketed (.inl rfl) (.inl rfl) hbefore hafter hrest
      (atLineEnd_items _ (List.cons_ne_nil x xs)) fun _ hrest =>
        documents_items (depth + 1) (x :: xs) (List.cons_ne_nil x xs) hv.2 hrest
  | object (e :: es), _, _, _, _, _, hv, hbefore, hafter, hrest =>
    documents_bracketed (.inr rfl) (.inr rfl) hbefore hafter hrest
      (atLineEnd_entries _ (List.cons_ne_nil e es)) fun _ hrest =>
        documents_entries (depth + 1) (e :: es) (List.cons_ne_nil e es) hv.2.2 hrest

theorem documents_items (depth : Nat) : ∀ (xs : List Json), xs ≠ [] →
    ∀ {d : Nat} {rest : List Char}, ReadableItems d xs → AtLineEnd rest →
      documents (indentedItems depth xs ++ rest) = loneItems xs ++ documents rest
  | [x], _, d, rest, hxs, hrest => by
    have htext : indentedItems depth [x] ++ rest =
        '\n' :: (indentation depth ++ (x.indentedChars depth ++ ([] ++ rest))) := by
      simp [indentedItems, newline_eq]
    rw [htext, documents_newline]
    cases hspreads : x.spreads
    · have hline : '\n' ∉ indentation depth ++ x.compactChars := by
        simp [newline_not_mem_indentation, newline_not_mem_compactChars]
      rw [indentedChars_of_not_spreads hspreads, List.nil_append, ← List.append_assoc,
        documents_line_append hline hrest, readLine?_indentation_append,
        readLine?_compactChars hspreads hxs.1]
      simp [loneItems, hspreads]
    · rw [documents_spread depth x hspreads hxs.1 (newline_not_mem_indentation depth) (by simp)
        hrest]
      simp [loneItems, hspreads]
  | x :: y :: xs, _, d, rest, hxs, hrest => by
    have htext : indentedItems depth (x :: y :: xs) ++ rest = '\n' :: (indentation depth ++
        (x.indentedChars depth ++ ([','] ++ (indentedItems depth (y :: xs) ++ rest)))) := by
      simp [indentedItems, newline_eq]
    have hne := List.cons_ne_nil y xs
    have hnext := atLineEnd_items depth hne rest
    rw [htext, documents_newline, loneItems, List.append_assoc,
      ← documents_items depth (y :: xs) hne hxs.2 hrest]
    cases hspreads : x.spreads
    · have hline : '\n' ∉ indentation depth ++ x.compactChars ++ [','] := by
        simp [newline_not_mem_indentation, newline_not_mem_compactChars]
      rw [indentedChars_of_not_spreads hspreads, ← List.append_assoc, ← List.append_assoc,
        documents_line_append hline hnext, readLine?_append_singleton _ (.inl rfl),
        lone_eq_nil hspreads]
      rfl
    · exact documents_spread depth x hspreads hxs.1 (newline_not_mem_indentation depth) (by simp)
        hnext

theorem documents_entries (depth : Nat) : ∀ (es : List (String × Json)), es ≠ [] →
    ∀ {d : Nat} {rest : List Char}, ReadableEntries d es → AtLineEnd rest →
      documents (indentedEntries depth es ++ rest) = loneEntries es ++ documents rest
  | [(k, v)], _, d, rest, hes, hrest => by
    have htext : indentedEntries depth [(k, v)] ++ rest =
        '\n' :: (entryStart depth k ++ (v.indentedChars depth ++ ([] ++ rest))) := by
      simp [indentedEntries, newline_eq, entryStart]
    rw [htext, documents_newline, loneEntries, loneEntries, List.append_nil]
    cases hspreads : v.spreads
    · have hline : '\n' ∉ entryStart depth k ++ v.compactChars := by
        simp [newline_not_mem_entryStart, newline_not_mem_compactChars]
      rw [indentedChars_of_not_spreads hspreads, List.nil_append, ← List.append_assoc,
        documents_line_append hline hrest, readLine?_entryStart_append, lone_eq_nil hspreads]
      rfl
    · exact documents_spread depth v hspreads hes.1 (newline_not_mem_entryStart depth k) (by simp)
        hrest
  | (k, v) :: e :: es, _, d, rest, hes, hrest => by
    have htext : indentedEntries depth ((k, v) :: e :: es) ++ rest = '\n' :: (entryStart depth k ++
        (v.indentedChars depth ++ ([','] ++ (indentedEntries depth (e :: es) ++ rest)))) := by
      simp [indentedEntries, newline_eq, entryStart]
    have hne := List.cons_ne_nil e es
    have hnext := atLineEnd_entries depth hne rest
    rw [htext, documents_newline, loneEntries, List.append_assoc,
      ← documents_entries depth (e :: es) hne hes.2 hrest]
    cases hspreads : v.spreads
    · have hline : '\n' ∉ entryStart depth k ++ v.compactChars ++ [','] := by
        simp [newline_not_mem_entryStart, newline_not_mem_compactChars]
      rw [indentedChars_of_not_spreads hspreads, ← List.append_assoc, ← List.append_assoc,
        documents_line_append hline hnext, readLine?_append_singleton _ (.inl rfl),
        lone_eq_nil hspreads]
      rfl
    · exact documents_spread depth v hspreads hes.1 (newline_not_mem_entryStart depth k) (by simp)
        hnext

end

/-- **The documents that stand on lines of an indented text** are the document itself where it takes
one line, and otherwise the last items of its arrays that take one line. -/
theorem documents_indented {v : Json} {d : Nat} (hv : v.Readable d) :
    documents (v.indentedChars 0) = if v.spreads then v.lone else [v] := by
  cases hspreads : v.spreads
  · rw [indentedChars_of_not_spreads hspreads,
      documents_of_not_mem (newline_not_mem_compactChars v), readLine?_compactChars hspreads hv]
    rfl
  · have hline : '\n' ∉ ([] : List Char) := List.not_mem_nil
    simpa using documents_spread 0 v hspreads hv hline hline (.inl rfl)

/-! ## A result after a log -/

/-- The lines of a log, each with its line end. -/
def logText (lines : List String) : String := String.join (lines.map (· ++ "\n"))

theorem toList_logText (lines : List String) :
    (logText lines).toList = lines.flatMap fun line => line.toList ++ ['\n'] := by
  simp [logText, String.toList_join, List.flatMap_map]

theorem documents_logText {lines : List String}
    (h : ∀ line ∈ lines, '\n' ∉ line.toList ∧ readLine? line.toList = none) :
    documents (logText lines).toList = [] := by
  rw [toList_logText]
  induction lines with
  | nil => rfl
  | cons line lines ih =>
    obtain ⟨⟨hnewline, hread⟩, hlines⟩ := List.forall_mem_cons.mp h
    rw [List.flatMap_cons, List.append_assoc, List.singleton_append, documents_line hnewline, hread,
      ih hlines]
    rfl

theorem readOutput?_logText_indented {lines : List String} {blanks : String} {v : Json}
    (hlines : ∀ line ∈ lines, '\n' ∉ line.toList ∧ readLine? line.toList = none)
    (hblanks : ∀ c ∈ blanks.toList, Text.isBlank c = true) (hv : v.Readable maxDepth) :
    readOutput? (logText lines ++ v.indented ++ blanks) =
      if (∀ line ∈ lines, line.toList.all Text.isBlank = true) ∨ v.spreads = false then some v
      else v.lone.getLast? := by
  have hchars : Layout.indenting.chars 0 v = v.indentedChars 0 := chars_indenting 0 v
  have hsolid : Text.Solid (v.indentedChars 0) := hchars ▸ Layout.indenting.solid_chars 0 v
  have hlevel : Level (v.indentedChars 0) := hchars ▸ Layout.indenting.level_chars 0 v
  have hread : readWithin? maxDepth (v.indentedChars 0) = some v :=
    hchars ▸ Layout.indenting.readWithin?_chars 0 hv
  have hend : (logText lines).toList = [] ∨ (logText lines).toList.getLast? = some '\n' := by
    rw [toList_logText]
    obtain rfl | ⟨front, last, rfl⟩ := List.eq_nil_or_concat lines
    · exact .inl rfl
    · exact .inr (by simp)
  have hall : (logText lines).toList.all Text.isBlank = true ↔
      ∀ line ∈ lines, line.toList.all Text.isBlank = true := by
    simp [toList_logText, Text.isBlank]
  have houtput : logText lines ++ v.indented ++ blanks =
      String.ofList ((logText lines).toList ++ (v.indentedChars 0 ++ blanks.toList)) := by
    apply String.toList_injective
    simp [indented]
  rw [houtput, readOutput?_append hend hsolid hlevel hblanks, documents_logText hlines, hread,
    documents_indented hv, List.nil_append]
  by_cases hblank : ∀ line ∈ lines, line.toList.all Text.isBlank = true
  · rw [if_pos (hall.mpr hblank), if_pos (Or.inl hblank), Option.some_or]
  · rw [if_neg (mt hall.mp hblank), Option.none_or]
    cases hspreads : v.spreads
    · rw [if_pos (Or.inr rfl)]
      rfl
    · rw [if_neg (not_or.mpr ⟨hblank, Bool.noConfusion⟩)]
      rfl

/-- **What is read from an indented result after a log** of which no line is a document: the result
where the log is blank or the result takes one line, and otherwise the last item that takes one line
and is the last of its array.  So the result or nothing is read, and not a part of the result,
exactly where the log is blank, the result takes one line, or the last item of every array in it
takes several. -/
theorem readOutput?_indented {lines : List String} {blanks : String} {v : Json}
    (hlines : ∀ line ∈ lines, '\n' ∉ line.toList ∧ readLine? line.toList = none)
    (hblanks : ∀ c ∈ blanks.toList, Text.isBlank c = true) (hv : v.Readable maxDepth) :
    (readOutput? (logText lines ++ v.indented ++ blanks) =
      if (∀ line ∈ lines, line.toList.all Text.isBlank = true) ∨ v.spreads = false then some v
      else v.lone.getLast?) ∧
    (readOutput? (logText lines ++ v.indented ++ blanks) = some v ∨
        readOutput? (logText lines ++ v.indented ++ blanks) = none ↔
      (∀ line ∈ lines, line.toList.all Text.isBlank = true) ∨ v.spreads = false ∨
        ∀ x, LastOfArray x v → x.spreads = true) := by
  have hread := readOutput?_logText_indented hlines hblanks hv
  refine ⟨hread, ?_⟩
  rw [hread, ← or_assoc]
  split
  · next h => exact iff_of_true (.inl rfl) (.inl h)
  · next h =>
    have hself : v.lone.getLast? ≠ some v := fun hlast =>
      h (.inr (mem_lone_iff.mp (List.mem_of_getLast? hlast)).2)
    have hnone : v.lone.getLast? = none ↔ ∀ x, LastOfArray x v → x.spreads = true := by
      rw [List.getLast?_eq_none_iff, List.eq_nil_iff_forall_not_mem]
      refine forall_congr' fun x => ?_
      rw [mem_lone_iff, not_and, Bool.not_eq_false]
    rw [or_iff_right hself, or_iff_right h, hnone]

/-- The last item of the inner array is read, and not that of the object after it. -/
theorem readOutput?_indented_inner :
    (∀ line ∈ ["start\r", ""], '\n' ∉ line.toList ∧ readLine? line.toList = none) ∧
      Readable maxDepth (array [array [null, boolean true], object [("a", array [])]]) ∧
      readOutput? (logText ["start\r", ""] ++
          (array [array [null, boolean true], object [("a", array [])]]).indented ++ "\n") =
        some (boolean true) := by
  have hlines : ∀ line ∈ ["start\r", ""], '\n' ∉ line.toList ∧ readLine? line.toList = none := by
    simp only [List.forall_mem_cons, List.not_mem_nil, false_imp_iff, implies_true, and_true]
    exact ⟨⟨by decide, by rfl⟩, by decide, by rfl⟩
  have hv : Readable maxDepth (array [array [null, boolean true], object [("a", array [])]]) := by
    simp [Readable, ReadableItems, ReadableEntries, maxDepth, Entries.keys]
  have hblanks : ∀ c ∈ "\n".toList, Text.isBlank c = true := List.all_eq_true.mp (by decide)
  exact ⟨hlines, hv, (readOutput?_indented hlines hblanks hv).1.trans (by rfl)⟩

/-- A number is read after one line of a log in the place of the array that it is the last item
of. -/
theorem readOutput?_mistaken :
    readLine? "log".toList = none ∧
      readOutput? ("log\n" ++ (array [.ofNat 1, .ofNat 2]).indented) = some (.ofNat 2) ∧
      ¬ (readOutput? ("log\n" ++ (array [.ofNat 1, .ofNat 2]).indented) =
          some (array [.ofNat 1, .ofNat 2]) ∨
        readOutput? ("log\n" ++ (array [.ofNat 1, .ofNat 2]).indented) = none) := by
  have hread : readOutput? ("log\n" ++ (array [.ofNat 1, .ofNat 2]).indented) =
      some (.ofNat 2) := by rfl
  exact ⟨by rfl, hread, by rw [hread]; simp [ofNat]⟩

end Handler

end StateFlow
