import Mathlib.Data.Nat.Digits.Defs
import StateFlow.Proofs.Json.Reader
import StateFlow.Proofs.Text.Lines

/-!
# The texts of a document

The one-line text and the indented text of a document differ in the blanks between their tokens
only: both are its text in a layout.  In every layout the text is level, and it begins and ends with
a character that is no blank.

## Main definitions

* `Number.Looks`: a text that begins like a number and is made of the characters of numbers
* `Layout`: the blanks between the tokens of a text

## Main results

* `Number.looks_chars`: the text of every number looks like one
* `chars_oneLine`, `chars_indenting`: the printed texts are those of two layouts
* `Layout.level_chars`, `Layout.solid_chars`: the text of a document is level in every layout, and
  has no blanks at its ends
* `newline_not_mem_compactChars`: the one-line text is one line
-/

namespace StateFlow

/-! ## The text of a number -/

namespace Number

open Json.Reader (isNumberChar)

theorem isDigit_of_mem_digitChars {n : Nat} {c : Char} (h : c ∈ digitChars n) :
    isDigit c = true := by
  have hdigit := Nat.isDigit_of_mem_toDigits (by omega) (by omega) h
  simpa [isDigit, Char.isDigit, Char.le_def] using hdigit

theorem digitChars_ne_nil (n : Nat) : digitChars n ≠ [] := Nat.toDigits_ne_nil

/-- A text that begins like a number and is made of the characters of numbers. -/
def Looks (cs : List Char) : Prop :=
  (∃ c ds, cs = c :: ds ∧ (isDigit c || c = '-') = true) ∧ ∀ c ∈ cs, isNumberChar c = true

theorem isNumberChar_of_isDigit {c : Char} (h : isDigit c = true) : isNumberChar c = true := by
  simp [isNumberChar, h]

theorem looks_of_digits {cs : List Char} (hne : cs ≠ []) (h : ∀ c ∈ cs, isDigit c = true) :
    Looks cs := by
  obtain ⟨c, ds, rfl⟩ := List.exists_cons_of_ne_nil hne
  exact ⟨⟨c, ds, rfl, by simp [h c]⟩, fun d hd => isNumberChar_of_isDigit (h d hd)⟩

theorem looks_digitChars (n : Nat) : Looks (digitChars n) :=
  looks_of_digits (digitChars_ne_nil n) fun _ => isDigit_of_mem_digitChars

theorem Looks.append {cs ds : List Char} (hcs : Looks cs) (hds : ∀ c ∈ ds, isNumberChar c = true) :
    Looks (cs ++ ds) := by
  obtain ⟨⟨c, es, rfl, hc⟩, hall⟩ := hcs
  exact ⟨⟨c, es ++ ds, rfl, hc⟩, fun d hd => (List.mem_append.mp hd).elim (hall d) (hds d)⟩

theorem Looks.negative {cs : List Char} (hcs : Looks cs) : Looks ('-' :: cs) :=
  ⟨⟨'-', cs, rfl, rfl⟩, List.forall_mem_cons.mpr ⟨rfl, hcs.2⟩⟩

theorem looks_positional {digits : List Char} (hne : digits ≠ [])
    (h : ∀ c ∈ digits, isDigit c = true) (exponent : Int) : Looks (positional digits exponent) := by
  have hdigits := looks_of_digits hne h
  have hzeros (k : Nat) : ∀ c ∈ List.replicate k '0', isNumberChar c = true :=
    fun c hc => List.eq_of_mem_replicate hc ▸ rfl
  unfold positional
  split
  · refine ⟨⟨'0', _, rfl, rfl⟩, List.forall_mem_cons.mpr ⟨rfl, List.forall_mem_cons.mpr ⟨rfl, ?_⟩⟩⟩
    exact fun c hc => (List.mem_append.mp hc).elim (hzeros _ c) (hdigits.2 c)
  · dsimp only
    split
    · rw [List.append_assoc]
      refine hdigits.append fun c hc => (List.mem_append.mp hc).elim (hzeros _ c) fun hc => ?_
      simp at hc
      rcases hc with rfl | rfl <;> rfl
    · refine (looks_of_digits (by simpa using hne) fun c hc => h c (List.mem_of_mem_take hc)).append
        (List.forall_mem_cons.mpr ⟨rfl, fun c hc => hdigits.2 c (List.mem_of_mem_drop hc)⟩)

theorem looks_scientific {digits : List Char} (hne : digits ≠ [])
    (h : ∀ c ∈ digits, isDigit c = true) (exponent : Int) : Looks (scientific digits exponent) := by
  have hexponent : ∀ c ∈ 'e' :: (if exponent < 0 then '-' else '+') :: digitChars exponent.natAbs,
      isNumberChar c = true := by
    refine List.forall_mem_cons.mpr ⟨rfl, List.forall_mem_cons.mpr ⟨?_, (looks_digitChars _).2⟩⟩
    split <;> rfl
  unfold scientific
  refine Looks.append ?_ hexponent
  rcases digits with _ | ⟨d, _ | ⟨e, ds⟩⟩
  · exact absurd rfl hne
  · exact looks_of_digits (List.cons_ne_nil d []) h
  · obtain ⟨hd, hds⟩ := List.forall_mem_cons.mp h
    exact (looks_of_digits (List.cons_ne_nil d []) (by simpa using hd)).append
      (List.forall_mem_cons.mpr ⟨rfl, fun c hc => isNumberChar_of_isDigit (hds c hc)⟩)

theorem looks_realChars (x : Binary64) : Looks (realChars x) := by
  have hmagnitude : Looks (if x.isZero then ['0', '.', '0'] else
      let d := x.shortest
      let digits := digitChars d.digits
      let exponent := d.scale + (digits.length - 1 : Nat)
      if layout.positionalFrom ≤ exponent ∧ exponent ≤ layout.positionalUpTo then
        positional digits exponent
      else scientific digits exponent) := by
    split
    · exact ⟨⟨'0', _, rfl, rfl⟩, List.all_eq_true.mp rfl⟩
    · dsimp only
      split
      · exact looks_positional (digitChars_ne_nil _) (fun _ => isDigit_of_mem_digitChars) _
      · exact looks_scientific (digitChars_ne_nil _) (fun _ => isDigit_of_mem_digitChars) _
  unfold realChars
  dsimp only
  split
  · exact hmagnitude.negative
  · exact hmagnitude

theorem looks_chars (n : Number) : Looks n.chars := by
  cases n with
  | integer n =>
    simp only [chars, integerChars]
    split
    · exact (looks_digitChars _).negative
    · exact looks_digitChars _
  | real x => exact looks_realChars x

end Number

namespace Json

/-! ## Layouts -/

/-- The blanks between the tokens of a text. -/
structure Layout where
  /-- Before an item, an entry or a closing bracket, by depth. -/
  gap : Nat → List Char
  /-- After a colon. -/
  space : List Char
  gap_blank : ∀ depth, ∀ c ∈ gap depth, Reader.isBlank c = true
  space_blank : ∀ c ∈ space, Reader.isBlank c = true

namespace Layout

mutual

/-- The text of a document that starts at a depth. -/
def chars (l : Layout) (depth : Nat) : Json → List Char
  | array [] => ['[', ']']
  | array (x :: xs) => '[' :: (l.items (depth + 1) (x :: xs) ++ l.gap depth ++ [']'])
  | object [] => ['\x7b', '\x7d']
  | object (e :: es) => '\x7b' :: (l.entries (depth + 1) (e :: es) ++ l.gap depth ++ ['\x7d'])
  | null => ['n', 'u', 'l', 'l']
  | boolean true => ['t', 'r', 'u', 'e']
  | boolean false => ['f', 'a', 'l', 's', 'e']
  | number n => n.chars
  | string s => quoted s

/-- Items, separated by commas. -/
def items (l : Layout) (depth : Nat) : List Json → List Char
  | [] => []
  | [x] => l.gap depth ++ l.chars depth x
  | x :: y :: xs => l.gap depth ++ l.chars depth x ++ ',' :: l.items depth (y :: xs)

/-- Entries, separated by commas. -/
def entries (l : Layout) (depth : Nat) : List (String × Json) → List Char
  | [] => []
  | [(k, v)] => l.gap depth ++ quoted k ++ ':' :: (l.space ++ l.chars depth v)
  | (k, v) :: e :: es =>
    l.gap depth ++ quoted k ++
      ':' :: (l.space ++ l.chars depth v ++ ',' :: l.entries depth (e :: es))

end

/-- Everything on one line. -/
def oneLine : Layout := ⟨fun _ => [], [], by simp, by simp⟩

/-- One entry a line. -/
def indenting : Layout :=
  ⟨newline, [' '], fun depth c hc => by
    obtain rfl | hc := List.mem_cons.mp hc
    · rfl
    · exact List.eq_of_mem_replicate hc ▸ rfl, by simp [Reader.isBlank]⟩

end Layout

open Layout

@[simp] theorem gap_oneLine (depth : Nat) : oneLine.gap depth = [] := rfl

@[simp] theorem space_oneLine : oneLine.space = [] := rfl

@[simp] theorem gap_indenting (depth : Nat) : indenting.gap depth = newline depth := rfl

@[simp] theorem space_indenting : indenting.space = [' '] := rfl

mutual

theorem chars_oneLine (depth : Nat) : ∀ v : Json, oneLine.chars depth v = v.compactChars
  | array [] | object [] | null | boolean true | boolean false | number _ | string _ => rfl
  | array (x :: xs) => by simp [chars, compactChars, items_oneLine (depth + 1) (x :: xs)]
  | object (e :: es) => by simp [chars, compactChars, entries_oneLine (depth + 1) (e :: es)]

theorem items_oneLine (depth : Nat) : ∀ xs : List Json, oneLine.items depth xs = compactItems xs
  | [] => rfl
  | [x] => by simp [items, compactItems, chars_oneLine depth x]
  | x :: y :: xs => by
    simp [items, compactItems, chars_oneLine depth x, items_oneLine depth (y :: xs)]

theorem entries_oneLine (depth : Nat) :
    ∀ es : List (String × Json), oneLine.entries depth es = compactEntries es
  | [] => rfl
  | [(_, v)] => by simp [entries, compactEntries, chars_oneLine depth v]
  | (_, v) :: e :: es => by
    simp [entries, compactEntries, chars_oneLine depth v, entries_oneLine depth (e :: es)]

end

mutual

theorem chars_indenting (depth : Nat) : ∀ v : Json, indenting.chars depth v = v.indentedChars depth
  | array [] | object [] | null | boolean true | boolean false | number _ | string _ => rfl
  | array (x :: xs) => by simp [chars, indentedChars, items_indenting (depth + 1) (x :: xs)]
  | object (e :: es) => by simp [chars, indentedChars, entries_indenting (depth + 1) (e :: es)]

theorem items_indenting (depth : Nat) :
    ∀ xs : List Json, indenting.items depth xs = indentedItems depth xs
  | [] => rfl
  | [x] => by simp [items, indentedItems, chars_indenting depth x]
  | x :: y :: xs => by
    simp [items, indentedItems, chars_indenting depth x, items_indenting depth (y :: xs)]

theorem entries_indenting (depth : Nat) :
    ∀ es : List (String × Json), indenting.entries depth es = indentedEntries depth es
  | [] => rfl
  | [(_, v)] => by simp [entries, indentedEntries, chars_indenting depth v]
  | (_, v) :: e :: es => by
    simp [entries, indentedEntries, chars_indenting depth v, entries_indenting depth (e :: es)]

end

/-! ## Texts are level -/

theorem level_chars_number (n : Number) : Level n.chars := by
  refine Level.of_forall fun c hc => ?_
  have hnumber := n.looks_chars.2 c hc
  cases hmark : isMark c with
  | false => rfl
  | true =>
    simp only [isMark, Bool.or_eq_true, decide_eq_true_eq] at hmark
    rcases hmark with (((rfl | rfl) | rfl) | rfl) | rfl <;> exact absurd hnumber (by decide)

theorem isMark_of_isBlank {c : Char} (h : Reader.isBlank c = true) : isMark c = false := by
  simp only [Reader.isBlank, Bool.or_eq_true, decide_eq_true_eq] at h
  rcases h with ((rfl | rfl) | rfl) | rfl <;> rfl

theorem Layout.level_gap (l : Layout) (depth : Nat) : Level (l.gap depth) :=
  .of_forall fun c hc => isMark_of_isBlank (l.gap_blank depth c hc)

theorem Layout.level_space (l : Layout) : Level l.space :=
  .of_forall fun c hc => isMark_of_isBlank (l.space_blank c hc)

mutual

/-- The text of a document is level in every layout. -/
theorem Layout.level_chars (l : Layout) (depth : Nat) : ∀ v : Json, Level (l.chars depth v)
  | array [] => Level.nil.bracketed (.inl rfl) (.inl rfl)
  | object [] => Level.nil.bracketed (.inr rfl) (.inr rfl)
  | array (x :: xs) =>
    ((l.level_items (depth + 1) (x :: xs)).append (l.level_gap depth)).bracketed (.inl rfl)
      (.inl rfl)
  | object (e :: es) =>
    ((l.level_entries (depth + 1) (e :: es)).append (l.level_gap depth)).bracketed
      (.inr rfl) (.inr rfl)
  | null | boolean true | boolean false => .of_forall (by simp [chars, isMark])
  | number n => level_chars_number n
  | string s => .quoted s

theorem Layout.level_items (l : Layout) (depth : Nat) : ∀ xs : List Json, Level (l.items depth xs)
  | [] => .nil
  | [x] => (l.level_gap depth).append (l.level_chars depth x)
  | x :: y :: xs =>
    ((l.level_gap depth).append (l.level_chars depth x)).append
      (.cons rfl (l.level_items depth (y :: xs)))

theorem Layout.level_entries (l : Layout) (depth : Nat) :
    ∀ es : List (String × Json), Level (l.entries depth es)
  | [] => .nil
  | [(k, v)] =>
    ((l.level_gap depth).append (.quoted k)).append
      (.cons rfl (l.level_space.append (l.level_chars depth v)))
  | (k, v) :: e :: es =>
    ((l.level_gap depth).append (.quoted k)).append
      (.cons rfl ((l.level_space.append (l.level_chars depth v)).append
        (.cons rfl (l.level_entries depth (e :: es)))))

end

/-! ## The ends and the lines of a text -/

theorem Reader.isBlank_of_isNumberChar {c : Char} (h : isNumberChar c = true) :
    Text.isBlank c = false := by
  simp only [isNumberChar, Bool.or_eq_true, decide_eq_true_eq] at h
  obtain ((((hdigit | rfl) | rfl) | rfl) | rfl) | rfl := h
  · have hrange : 48 ≤ c.toNat ∧ c.toNat ≤ 57 := by
      simpa [Number.isDigit, Char.le_def, UInt32.le_iff_toNat_le] using hdigit
    simp only [Text.isBlank, Bool.or_eq_false_iff, Bool.and_eq_false_iff, decide_eq_false_iff_not,
      beq_eq_false_iff_ne]
    omega
  all_goals rfl

theorem solid_quoted (s : String) : Text.Solid (quoted s) :=
  Text.solid_between rfl _ rfl

/-- The text of a document has no blanks at its ends. -/
theorem Layout.solid_chars (l : Layout) (depth : Nat) (v : Json) :
    Text.Solid (l.chars depth v) := by
  match v with
  | array [] | object [] => exact Text.solid_between rfl [] rfl
  | array (x :: xs) | object (e :: es) => exact Text.solid_between rfl _ rfl
  | null | boolean true | boolean false =>
    exact Text.solid_of_forall (by simp [chars]) (by simp [chars, Text.isBlank])
  | number n =>
    obtain ⟨⟨c, cs, hchars, -⟩, hall⟩ := n.looks_chars
    exact Text.solid_of_forall (by simp [chars, hchars]) fun d hd =>
      Reader.isBlank_of_isNumberChar (hall d hd)
  | string s => exact solid_quoted s

theorem hexDigit_ne_newline (n : Nat) (h : n < 16) : '\n' ≠ hexDigit n := by
  revert n
  decide

theorem newline_not_mem_escapeChar (c : Char) : '\n' ∉ escapeChar c := by
  unfold escapeChar
  iterate 7 split; · simp
  split
  · have hhigh := hexDigit_ne_newline (c.toNat / 16) (by omega)
    have hlow := hexDigit_ne_newline (c.toNat % 16) (by omega)
    simp [hhigh, hlow]
  · next h _ _ _ _ _ => simp [eq_comm, h]

theorem newline_not_mem_quoted (s : String) : '\n' ∉ quoted s := by
  simp [quoted, newline_not_mem_escapeChar]

mutual

/-- The one-line text has no line end. -/
theorem newline_not_mem_compactChars : ∀ v : Json, '\n' ∉ v.compactChars
  | null | boolean true | boolean false => by simp [compactChars]
  | number n => fun h => absurd (n.looks_chars.2 _ h) (by decide)
  | string s => newline_not_mem_quoted s
  | array xs => by simp [compactChars, newline_not_mem_compactItems xs]
  | object es => by simp [compactChars, newline_not_mem_compactEntries es]

theorem newline_not_mem_compactItems : ∀ xs : List Json, '\n' ∉ compactItems xs
  | [] => by simp [compactItems]
  | [x] => newline_not_mem_compactChars x
  | x :: y :: xs => by
    simp [compactItems, newline_not_mem_compactChars x, newline_not_mem_compactItems (y :: xs)]

theorem newline_not_mem_compactEntries : ∀ es : List (String × Json), '\n' ∉ compactEntries es
  | [] => by simp [compactEntries]
  | [(k, v)] => by
    simp [compactEntries, newline_not_mem_quoted k, newline_not_mem_compactChars v]
  | (k, v) :: e :: es => by
    simp [compactEntries, newline_not_mem_quoted k, newline_not_mem_compactChars v,
      newline_not_mem_compactEntries (e :: es)]

end

end Json

end StateFlow
