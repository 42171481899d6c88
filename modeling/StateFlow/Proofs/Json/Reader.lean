import StateFlow.Json.Printer
import StateFlow.Json.Reader

/-!
# What the reader of documents can do

A step of the reader stays inside a token, ends a quoted string, or ends the token before it and
takes one character between two tokens.  `Reader.step_cases` and `Reader.Turn` say so once, and
everything else about the reader is derived from them.

A text is level when it closes every bracket that it opens, quoted strings aside.  Two facts keep a
level text from being taken for a part of another document: after it as many containers are open as
before, and nothing but blanks may follow a document that is complete.

## Main definitions

* `Reader.Turn`: what one character between two tokens does
* `Reader.Coherent`: what is expected fits the containers that are open
* `Level`: a text after which as many containers are open as before

## Main results

* `Reader.run_quoted`: a quoted string is read as the string
* `readWithin?_append_eq_none`: lines in front of a level text do not make a document with it
-/

namespace StateFlow.Json

namespace Lexeme

/-- True inside a quoted string. -/
def isQuoted : Lexeme → Bool
  | text _ | escape _ | unicode .. | pair .. => true
  | _ => false

theorem ne_between_of_isQuoted {l : Lexeme} (h : l.isQuoted = true) : l ≠ between := by
  rintro rfl
  cases h

end Lexeme

namespace Reader

variable {m : Nat} {r q r' : Reader} {c : Char} {cs : List Char}

@[simp] theorem run_nil : run m r [] = some r := rfl

@[simp] theorem run_cons : run m r (c :: cs) = (step m r c).bind (run m · cs) := rfl

/-- A value may stand next. -/
def ExpectsValue (r : Reader) : Prop := r.expecting = .value ∨ r.expecting = .firstItem

/-- The reader that has handed a value to the innermost of some open containers. -/
def placed : List Frame → Json → Reader
  | [], v => ⟨.between, .ending v, []⟩
  | .array items :: rest, v => ⟨.between, .separator, .array (v :: items) :: rest⟩
  | .object entries name :: rest, v =>
    ⟨.between, .separator, .object (Entries.insert entries name v) name :: rest⟩

theorem lexeme_placed (stack : List Frame) (v : Json) : (placed stack v).lexeme = .between := by
  rcases stack with _ | ⟨_ | _, _⟩ <;> rfl

theorem length_placed (stack : List Frame) (v : Json) :
    (placed stack v).stack.length = stack.length := by
  rcases stack with _ | ⟨_ | _, _⟩ <;> rfl

theorem push_eq_some_iff {v : Json} :
    r.push v = some r' ↔ r.ExpectsValue ∧ r' = placed r.stack v := by
  obtain ⟨lexeme, expecting, stack⟩ := r
  cases expecting <;> rcases stack with _ | ⟨_ | _, _⟩ <;>
    simp [push, ExpectsValue, placed, eq_comm]

/-- A quoted string is a name where a name is expected, and a value otherwise. -/
theorem pushText_cases {s : String} (h : r.pushText s = some r') :
    (∃ entries name rest, r.stack = .object entries name :: rest ∧
      r' = ⟨.between, .colon, .object entries s :: rest⟩) ∨
    r.ExpectsValue ∧ r' = placed r.stack (.string s) := by
  unfold pushText at h
  split at h
  · next hstack => exact .inl ⟨_, _, _, hstack, (Option.some.inj h).symm⟩
  · next hstack => exact .inl ⟨_, _, _, hstack, (Option.some.inj h).symm⟩
  · exact .inr (push_eq_some_iff.mp h)

/-- What ends a token is a value that was expected. -/
theorem endToken_cases (h : r.endToken = some q) :
    r.lexeme = .between ∧ q = r ∨
      r.lexeme ≠ .between ∧ r.lexeme.isQuoted = false ∧ r.ExpectsValue ∧
        ∃ v, q = placed r.stack v := by
  unfold endToken at h
  split at h
  · next hlexeme =>
    obtain ⟨n, -, h⟩ := Option.bind_eq_some_iff.mp h
    obtain ⟨hexpects, rfl⟩ := push_eq_some_iff.mp h
    exact .inr ⟨by simp [hlexeme], by simp [hlexeme, Lexeme.isQuoted], hexpects, _, rfl⟩
  · next hlexeme =>
    obtain ⟨v, -, h⟩ := Option.bind_eq_some_iff.mp h
    obtain ⟨hexpects, rfl⟩ := push_eq_some_iff.mp h
    exact .inr ⟨by simp [hlexeme], by simp [hlexeme, Lexeme.isQuoted], hexpects, _, rfl⟩
  · next hlexeme => exact .inl ⟨hlexeme, (Option.some.inj h).symm⟩
  · cases h

theorem lexeme_of_endToken (h : r.endToken = some q) : q.lexeme = .between := by
  obtain ⟨hlexeme, rfl⟩ | ⟨-, -, -, v, rfl⟩ := endToken_cases h
  · exact hlexeme
  · exact lexeme_placed _ _

theorem length_of_endToken (h : r.endToken = some q) : q.stack.length = r.stack.length := by
  obtain ⟨-, rfl⟩ | ⟨-, -, -, v, rfl⟩ := endToken_cases h
  · rfl
  · exact length_placed _ _

/-! ## One character -/

/-- True of the characters that a number or a word may go on with. -/
def goesOn (c : Char) : Bool := isNumberChar c || isLetter c

/-- What one character between two tokens does. -/
inductive Turn (m : Nat) (q : Reader) : Char → Reader → Prop
  | blank {c : Char} (h : isBlank c) : Turn m q c { q with lexeme := .between }
  | quote : Turn m q '"' { q with lexeme := .text [] }
  | number {c : Char} (h : Number.isDigit c || c = '-') :
      Turn m q c { q with lexeme := .number [c] }
  | word {c : Char} (h : isLetter c) : Turn m q c { q with lexeme := .word [c] }
  | openArray (hexpects : q.ExpectsValue) (hdepth : q.stack.length < m) :
      Turn m q '[' ⟨.between, .firstItem, .array [] :: q.stack⟩
  | openObject (hexpects : q.ExpectsValue) (hdepth : q.stack.length < m) :
      Turn m q '\x7b' ⟨.between, .firstName, .object [] "" :: q.stack⟩
  | closeArray {items : List Json} {rest : List Frame} (hstack : q.stack = .array items :: rest) :
      Turn m q ']' (placed rest (.array items.reverse))
  | closeObject {entries : List (String × Json)} {name : String} {rest : List Frame}
      (hstack : q.stack = .object entries name :: rest) :
      Turn m q '\x7d' (placed rest (.object entries))
  | comma {expecting : Expecting} (hstack : q.stack ≠ [])
      (hnext : expecting = .value ∨ expecting = .name) : Turn m q ',' { q with expecting }
  | colon (h : q.expecting = .colon) : Turn m q ':' { q with expecting := .value }

theorem openFrame_eq_some {frame : Frame} {expecting : Expecting}
    (h : q.openFrame m frame expecting = some r') :
    q.ExpectsValue ∧ q.stack.length < m ∧ r' = ⟨.between, expecting, frame :: q.stack⟩ := by
  unfold openFrame at h
  split at h
  · next hexpects =>
    split at h
    · next hdepth => exact ⟨.inl hexpects, hdepth, (Option.some.inj h).symm⟩
    · cases h
  · next hexpects =>
    split at h
    · next hdepth => exact ⟨.inr hexpects, hdepth, (Option.some.inj h).symm⟩
    · cases h
  · cases h

theorem closeArray_eq_some (h : q.closeArray = some r') :
    ∃ items rest, q.stack = .array items :: rest ∧ r' = placed rest (.array items.reverse) := by
  unfold closeArray at h
  split at h
  · next hstack => exact ⟨_, _, hstack, (push_eq_some_iff.mp h).2⟩
  · next hstack => exact ⟨_, _, hstack, (push_eq_some_iff.mp h).2⟩
  · cases h

theorem closeObject_eq_some (h : q.closeObject = some r') :
    ∃ entries name rest, q.stack = .object entries name :: rest ∧
      r' = placed rest (.object entries) := by
  unfold closeObject at h
  split at h
  · next hstack => exact ⟨_, _, _, hstack, (push_eq_some_iff.mp h).2⟩
  · next hstack => exact ⟨_, _, _, hstack, (push_eq_some_iff.mp h).2⟩
  · cases h

theorem comma_eq_some (h : q.comma = some r') :
    q.stack ≠ [] ∧ ∃ expecting, (expecting = .value ∨ expecting = .name) ∧
      r' = { q with expecting } := by
  unfold comma at h
  split at h
  · next hstack => exact ⟨by simp [hstack], _, .inl rfl, (Option.some.inj h).symm⟩
  · next hstack => exact ⟨by simp [hstack], _, .inr rfl, (Option.some.inj h).symm⟩
  · cases h

theorem colon_eq_some (h : q.colon = some r') :
    q.expecting = .colon ∧ r' = { q with expecting := .value } := by
  unfold colon at h
  split at h
  · next hexpects => exact ⟨hexpects, (Option.some.inj h).symm⟩
  · cases h

theorem turn_of_stepBetween (h : q.stepBetween m c = some r') : Turn m q c r' := by
  unfold stepBetween at h
  split at h
  · next hc => exact Option.some.inj h ▸ .blank hc
  split at h
  · next hc => exact hc ▸ Option.some.inj h ▸ .quote
  split at h
  · next hc =>
    obtain ⟨hexpects, hdepth, rfl⟩ := openFrame_eq_some h
    exact hc ▸ .openArray hexpects hdepth
  split at h
  · next hc =>
    obtain ⟨items, rest, hstack, rfl⟩ := closeArray_eq_some h
    exact hc ▸ .closeArray hstack
  split at h
  · next hc =>
    obtain ⟨hexpects, hdepth, rfl⟩ := openFrame_eq_some h
    exact hc ▸ .openObject hexpects hdepth
  split at h
  · next hc =>
    obtain ⟨entries, name, rest, hstack, rfl⟩ := closeObject_eq_some h
    exact hc ▸ .closeObject hstack
  split at h
  · next hc =>
    obtain ⟨hstack, expecting, hnext, rfl⟩ := comma_eq_some h
    exact hc ▸ .comma hstack hnext
  split at h
  · next hc =>
    obtain ⟨hexpects, rfl⟩ := colon_eq_some h
    exact hc ▸ .colon hexpects
  split at h
  · next hc => exact Option.some.inj h ▸ .number hc
  split at h
  · next hc => exact Option.some.inj h ▸ .word hc
  · cases h

theorem isQuoted_of_endUnicode {characters : List Char} {value : Nat} {high : Option Nat}
    {l : Lexeme} (h : endUnicode characters value high = some l) : l.isQuoted = true := by
  unfold endUnicode at h
  grind [Lexeme.isQuoted]

/-- Inside a quoted string a step stays there or ends the string. -/
theorem step_of_isQuoted (hquoted : r.lexeme.isQuoted = true) (h : step m r c = some r') :
    (∃ l, l.isQuoted = true ∧ r' = { r with lexeme := l }) ∨
    ∃ s, c = '"' ∧ ({ r with lexeme := .between }).pushText s = some r' := by
  unfold step at h
  split at h
  · next hlexeme => simp [hlexeme, Lexeme.isQuoted] at hquoted
  · next hlexeme => simp [hlexeme, Lexeme.isQuoted] at hquoted
  · next hlexeme => simp [hlexeme, Lexeme.isQuoted] at hquoted
  · split at h
    · next hc => exact .inr ⟨_, hc, h⟩
    split at h
    · exact .inl ⟨_, rfl, (Option.some.inj h).symm⟩
    split at h
    · cases h
    · exact .inl ⟨_, rfl, (Option.some.inj h).symm⟩
  · split at h
    · exact .inl ⟨_, rfl, (Option.some.inj h).symm⟩
    · obtain ⟨d, -, h⟩ := Option.bind_eq_some_iff.mp h
      exact .inl ⟨_, rfl, (Option.some.inj h).symm⟩
  · obtain ⟨d, -, h⟩ := Option.bind_eq_some_iff.mp h
    dsimp only at h
    split at h
    · obtain ⟨l, hl, h⟩ := Option.bind_eq_some_iff.mp h
      exact .inl ⟨l, isQuoted_of_endUnicode hl, (Option.some.inj h).symm⟩
    · exact .inl ⟨_, rfl, (Option.some.inj h).symm⟩
  · split at h
    · exact .inl ⟨_, rfl, (Option.some.inj h).symm⟩
    · cases h
  · split at h
    · exact .inl ⟨_, rfl, (Option.some.inj h).symm⟩
    · cases h

/-- Outside quoted strings a step goes on with a number or a word, or ends it and takes a character
between two tokens. -/
theorem step_of_not_isQuoted (hquoted : r.lexeme.isQuoted = false) (h : step m r c = some r') :
    (∃ l, r.lexeme ≠ .between ∧ l ≠ .between ∧ l.isQuoted = false ∧ goesOn c = true ∧
      r' = { r with lexeme := l }) ∨
    ∃ q, r.endToken = some q ∧ Turn m q c r' := by
  unfold step at h
  split at h
  · next hlexeme => exact .inr ⟨r, by simp [endToken, hlexeme], turn_of_stepBetween h⟩
  · next ds hlexeme =>
    split at h
    · next hc =>
      exact .inl ⟨.number (c :: ds), by simp [hlexeme], by simp, rfl, by simp [goesOn, hc],
        (Option.some.inj h).symm⟩
    · obtain ⟨q, hq, h⟩ := Option.bind_eq_some_iff.mp h
      exact .inr ⟨q, hq, turn_of_stepBetween h⟩
  · next ds hlexeme =>
    split at h
    · next hc =>
      exact .inl ⟨.word (c :: ds), by simp [hlexeme], by simp, rfl, by simp [goesOn, hc],
        (Option.some.inj h).symm⟩
    · obtain ⟨q, hq, h⟩ := Option.bind_eq_some_iff.mp h
      exact .inr ⟨q, hq, turn_of_stepBetween h⟩
  all_goals next hlexeme => simp [hlexeme, Lexeme.isQuoted] at hquoted

/-- What a number or a word cannot go on with is taken between two tokens. -/
theorem turn_of_step (hquoted : r.lexeme.isQuoted = false) (hc : goesOn c = false)
    (h : step m r c = some r') : ∃ q, r.endToken = some q ∧ Turn m q c r' := by
  obtain ⟨l, -, -, -, hgoes, -⟩ | h := step_of_not_isQuoted hquoted h
  · simp [hc] at hgoes
  · exact h

theorem step_eq_of_endToken (h : r.endToken = some q) (hc : goesOn c = false) :
    step m r c = step m q c := by
  obtain ⟨hnumber, hletter⟩ : isNumberChar c = false ∧ isLetter c = false := by
    simpa [goesOn] using hc
  have hq : step m q c = q.stepBetween m c := by simp [step, lexeme_of_endToken h]
  obtain ⟨-, rfl⟩ | ⟨hlexeme, hquoted, -⟩ := endToken_cases h
  · rfl
  · rw [hq]
    cases hr : r.lexeme with
    | between => exact absurd hr hlexeme
    | number ds => simp [step, hr, hnumber, h]
    | word ds => simp [step, hr, hletter, h]
    | text | escape | unicode | pair => simp [hr, Lexeme.isQuoted] at hquoted

/-- A line end lies in no quoted string. -/
theorem lexeme_of_step_newline (h : step m r '\n' = some r') : r'.lexeme = .between := by
  cases hquoted : r.lexeme.isQuoted
  · obtain ⟨q, -, hturn⟩ := turn_of_step hquoted (by decide) h
    cases hturn with
    | blank => rfl
    | number hdigit => exact absurd hdigit (by decide)
    | word hletter => exact absurd hletter (by decide)
  · have hhex : Text.hexValue? '\n' = none := by decide
    unfold step at h
    split at h <;> simp_all [Lexeme.isQuoted, escaped?]

/-! ## Containers that are open -/

theorem length_of_step_open (hquoted : r.lexeme.isQuoted = false) (hc : c = '[' ∨ c = '\x7b')
    (h : step m r c = some r') :
    r'.lexeme.isQuoted = false ∧ r'.stack.length = r.stack.length + 1 := by
  obtain ⟨q, hq, hturn⟩ := turn_of_step hquoted (by rcases hc with rfl | rfl <;> decide) h
  rw [← length_of_endToken hq]
  cases hturn with
  | openArray | openObject => exact ⟨rfl, rfl⟩
  | blank hblank => exact absurd hblank (by rcases hc with rfl | rfl <;> decide)
  | number hdigit => exact absurd hdigit (by rcases hc with rfl | rfl <;> decide)
  | word hletter => exact absurd hletter (by rcases hc with rfl | rfl <;> decide)
  | quote | closeArray | closeObject | comma | colon => simp at hc

theorem length_of_step_close (hquoted : r.lexeme.isQuoted = false) (hc : c = ']' ∨ c = '\x7d')
    (h : step m r c = some r') :
    r'.lexeme.isQuoted = false ∧ r'.stack.length + 1 = r.stack.length := by
  obtain ⟨q, hq, hturn⟩ := turn_of_step hquoted (by rcases hc with rfl | rfl <;> decide) h
  rw [← length_of_endToken hq]
  cases hturn with
  | closeArray hstack | closeObject hstack =>
    exact ⟨by rw [lexeme_placed]; rfl, by rw [length_placed, hstack, List.length_cons]⟩
  | blank hblank => exact absurd hblank (by rcases hc with rfl | rfl <;> decide)
  | number hdigit => exact absurd hdigit (by rcases hc with rfl | rfl <;> decide)
  | word hletter => exact absurd hletter (by rcases hc with rfl | rfl <;> decide)
  | quote | openArray | openObject | comma | colon => simp at hc

/-- What is expected fits the containers that are open: the document is complete when none is, and
only its value is expected before one is. -/
def Coherent (r : Reader) : Prop :=
  match r.expecting with
  | .value => True
  | .ending _ => r.stack = []
  | _ => r.stack ≠ []

theorem coherent_placed (stack : List Frame) (v : Json) : (placed stack v).Coherent := by
  rcases stack with _ | ⟨_ | _, _⟩ <;> simp [placed, Coherent]

theorem Coherent.endToken (hr : r.Coherent) (h : r.endToken = some q) : q.Coherent := by
  obtain ⟨-, rfl⟩ | ⟨-, -, -, v, rfl⟩ := endToken_cases h
  · exact hr
  · exact coherent_placed _ _

theorem Coherent.turn (hq : q.Coherent) (h : Turn m q c r') : r'.Coherent := by
  cases h with
  | blank | quote | number | word => exact hq
  | openArray | openObject => simp [Coherent]
  | closeArray | closeObject => exact coherent_placed _ _
  | comma hstack hnext => rcases hnext with rfl | rfl <;> simp [Coherent, hstack]
  | colon => simp [Coherent]

theorem Coherent.step (hr : r.Coherent) (h : step m r c = some r') : r'.Coherent := by
  cases hquoted : r.lexeme.isQuoted
  · obtain ⟨l, -, -, -, -, rfl⟩ | ⟨q, hq, hturn⟩ := step_of_not_isQuoted hquoted h
    · exact hr
    · exact (hr.endToken hq).turn hturn
  · obtain ⟨l, -, rfl⟩ | ⟨s, -, hs⟩ := step_of_isQuoted hquoted h
    · exact hr
    · obtain ⟨entries, name, rest, -, rfl⟩ | ⟨-, rfl⟩ := pushText_cases hs
      · simp [Coherent]
      · exact coherent_placed _ _

theorem Coherent.run (hr : r.Coherent) (h : run m r cs = some r') : r'.Coherent := by
  induction cs generalizing r with
  | nil => exact Option.some.inj h ▸ hr
  | cons c cs ih =>
    obtain ⟨r₁, hstep, h⟩ := Option.bind_eq_some_iff.mp h
    exact ih (hr.step hstep) h

theorem coherent_start : start.Coherent := trivial

theorem placed_ne_start (stack : List Frame) (v : Json) : placed stack v ≠ start := by
  rcases stack with _ | ⟨_ | _, _⟩ <;> simp [placed, start]

/-- Only blanks leave the reader where it starts. -/
theorem ne_start_of_step (hr : r.Coherent) (h : step m r c = some r')
    (hne : r ≠ start ∨ isBlank c = false) : r' ≠ start := by
  rintro rfl
  cases hquoted : r.lexeme.isQuoted
  · obtain ⟨l, -, hl, -, -, hstart⟩ | ⟨q, hq, hturn⟩ := step_of_not_isQuoted hquoted h
    · exact hl (congrArg lexeme hstart).symm
    · have hlexeme := lexeme_of_endToken hq
      generalize hstart : start = s at hturn
      cases hturn with
      | blank hc =>
        have hqs : q = start := by rw [hstart, ← hlexeme]
        obtain ⟨-, rfl⟩ | ⟨-, -, -, v, rfl⟩ := endToken_cases hq
        · exact hne.elim (absurd hqs) (by simp [hc])
        · exact placed_ne_start _ _ hqs
      | quote | number | word | openArray | openObject => simp [start] at hstart
      | closeArray | closeObject => exact placed_ne_start _ _ hstart.symm
      | comma hstack => exact hstack (congrArg stack hstart).symm
      | colon hcolon =>
        have hstack := hr.endToken hq
        rw [Coherent, hcolon] at hstack
        exact hstack (congrArg stack hstart).symm
  · obtain ⟨l, hl, hstart⟩ | ⟨s, -, hs⟩ := step_of_isQuoted hquoted h
    · exact Lexeme.ne_between_of_isQuoted hl (congrArg lexeme hstart).symm
    · obtain ⟨entries, name, rest, -, hstart⟩ | ⟨-, hstart⟩ := pushText_cases hs
      · cases hstart
      · exact placed_ne_start _ _ hstart.symm

theorem ne_start_of_run (hr : r.Coherent) (h : run m r cs = some r')
    (hne : r ≠ start ∨ ∃ c ∈ cs, isBlank c = false) : r' ≠ start := by
  induction cs generalizing r with
  | nil => exact Option.some.inj h ▸ hne.resolve_right (by simp)
  | cons c cs ih =>
    obtain ⟨r₁, hstep, h⟩ := Option.bind_eq_some_iff.mp h
    refine ih (hr.step hstep) h ?_
    obtain hne | ⟨d, hd, hblank⟩ := hne
    · exact .inl (ne_start_of_step hr hstep (.inl hne))
    · obtain rfl | hd := List.mem_cons.mp hd
      · exact .inl (ne_start_of_step hr hstep (.inr hblank))
      · exact .inr ⟨d, hd, hblank⟩

/-! ## After a complete document -/

/-- Inside a token after a complete document. -/
structure Overfull (r : Reader) : Prop where
  lexeme : r.lexeme ≠ .between
  stack : r.stack = []
  expecting : ¬ r.ExpectsValue

theorem Overfull.endToken (hr : r.Overfull) : r.endToken = none := by
  refine Option.eq_none_iff_forall_ne_some.mpr fun q hq => ?_
  obtain ⟨hlexeme, -⟩ | ⟨-, -, hexpects, -⟩ := endToken_cases hq
  · exact hr.lexeme hlexeme
  · exact hr.expecting hexpects

theorem Overfull.step (hr : r.Overfull) (h : step m r c = some r') : r'.Overfull := by
  cases hquoted : r.lexeme.isQuoted
  · obtain ⟨l, -, hl, -, -, rfl⟩ | ⟨q, hq, -⟩ := step_of_not_isQuoted hquoted h
    · exact ⟨hl, hr.stack, hr.expecting⟩
    · simp [hr.endToken] at hq
  · obtain ⟨l, hl, rfl⟩ | ⟨s, -, hs⟩ := step_of_isQuoted hquoted h
    · exact ⟨Lexeme.ne_between_of_isQuoted hl, hr.stack, hr.expecting⟩
    · obtain ⟨entries, name, rest, hstack, -⟩ | ⟨hexpects, -⟩ := pushText_cases hs
      · exact absurd (hr.stack.symm.trans hstack) (by simp)
      · exact absurd hexpects hr.expecting

theorem Overfull.finish_run (hr : r.Overfull) (cs : List Char) :
    (run m r cs).bind finish = none := by
  induction cs generalizing r with
  | nil => simp [finish, hr.endToken]
  | cons c cs ih =>
    rw [run_cons, Option.bind_assoc]
    exact Option.bind_eq_none_iff.mpr fun r' hstep => ih (hr.step hstep)

/-- Nothing but blanks may follow a complete document. -/
theorem finish_run_of_ending {v : Json} (hlexeme : r.lexeme = .between)
    (hending : r.expecting = .ending v) (hstack : r.stack = []) (hc : isBlank c = false) :
    (run m r (c :: cs)).bind finish = none := by
  have hexpects : ¬ r.ExpectsValue := by simp [ExpectsValue, hending]
  rw [run_cons, Option.bind_assoc]
  refine Option.bind_eq_none_iff.mpr fun r' hstep => Overfull.finish_run (m := m) ?_ cs
  obtain ⟨-, h, -⟩ | ⟨q, hq, hturn⟩ := step_of_not_isQuoted (by rw [hlexeme]; rfl) hstep
  · exact absurd hlexeme h
  · obtain ⟨-, rfl⟩ | ⟨h, -⟩ := endToken_cases hq
    · cases hturn with
      | blank h => simp [hc] at h
      | quote | number | word => exact ⟨nofun, hstack, hexpects⟩
      | openArray h | openObject h => exact absurd h hexpects
      | closeArray h | closeObject h => exact absurd (hstack.symm.trans h) (by simp)
      | comma h => exact absurd hstack h
      | colon h => simp [hending] at h
    · exact absurd hlexeme h

theorem finish_eq_some {v : Json} (h : r.finish = some v) :
    ∃ q, r.endToken = some q ∧ q.expecting = .ending v := by
  obtain ⟨q, hq, h⟩ := Option.bind_eq_some_iff.mp h
  split at h
  · next hending => exact ⟨q, hq, by rw [hending, Option.some.inj h]⟩
  · cases h

/-! ## Quoted strings -/

theorem hexValue?_hexDigit (n : Nat) (h : n < 16) : Text.hexValue? (hexDigit n) = some n := by
  revert n
  decide

/-- A character is read back from what is written for it inside a quoted string. -/
theorem run_escapeChar (r : Reader) (characters : List Char) (c : Char) :
    run m { r with lexeme := .text characters } (escapeChar c) =
      some { r with lexeme := .text (c :: characters) } := by
  unfold escapeChar
  split
  · next hc => subst hc; rfl
  split
  · next hc => subst hc; rfl
  split
  · next hc => subst hc; rfl
  split
  · next hc => subst hc; rfl
  split
  · next hc => subst hc; rfl
  split
  · next hc => subst hc; rfl
  split
  · next hc => subst hc; rfl
  split
  · next hcontrol =>
    have hhigh := hexValue?_hexDigit (c.toNat / 16) (by omega)
    have hlow := hexValue?_hexDigit (c.toNat % 16) (by omega)
    have hzero : Text.hexValue? '0' = some 0 := by decide
    have hvalue : c.toNat / 16 * 16 + c.toNat % 16 = c.toNat := by omega
    have hend : endUnicode characters c.toNat none = some (.text (c :: characters)) := by
      simp only [endUnicode]
      rw [if_neg (by omega), if_neg (by omega), Char.ofNat_toNat]
    simp [step, hzero, hhigh, hlow, hvalue, hend]
  · next hquote hbackslash _ _ _ _ _ hcontrol => simp [step, hquote, hbackslash, hcontrol]

theorem run_escaped (r : Reader) (characters ds : List Char) (s : List Char) :
    run m { r with lexeme := .text characters } (s.flatMap escapeChar ++ ds) =
      run m { r with lexeme := .text (s.reverse ++ characters) } ds := by
  induction s generalizing characters with
  | nil => rfl
  | cons c s ih =>
    rw [List.flatMap_cons, List.append_assoc, run_append, run_escapeChar, Option.bind_some, ih,
      List.reverse_cons, List.append_assoc, List.singleton_append]

/-- **A quoted string is read as the string.** -/
theorem run_quoted (hlexeme : r.lexeme = .between) (s : String) :
    run m r (quoted s) = r.pushText s := by
  have hr : { r with lexeme := .between } = r := by rw [← hlexeme]
  have hquote : step m r '"' = some { r with lexeme := .text [] } := by
    simp [step, hlexeme, stepBetween, isBlank]
  rw [quoted, run_cons, hquote, Option.bind_some, run_escaped, run_cons]
  simp [step, hr]

end Reader

/-! ## Level texts -/

open Reader

/-- Read outside quoted strings, the text leaves as many containers open as before. -/
def Level (cs : List Char) : Prop :=
  ∀ ⦃m : Nat⦄ ⦃r r' : Reader⦄, r.lexeme.isQuoted = false → run m r cs = some r' →
    r'.lexeme.isQuoted = false ∧ r'.stack.length = r.stack.length

/-- The marks that begin or end a container or a quoted string. -/
def isMark (c : Char) : Bool := c = '"' || c = '[' || c = ']' || c = '\x7b' || c = '\x7d'

namespace Level

variable {c d : Char} {cs ds : List Char}

theorem nil : Level [] := fun _ _ _ hr h => Option.some.inj h ▸ ⟨hr, rfl⟩

theorem append (hcs : Level cs) (hds : Level ds) : Level (cs ++ ds) := by
  intro m r r' hr h
  rw [run_append] at h
  obtain ⟨r₁, hrun, h⟩ := Option.bind_eq_some_iff.mp h
  obtain ⟨hr₁, hlength₁⟩ := hcs hr hrun
  obtain ⟨hr', hlength'⟩ := hds hr₁ h
  exact ⟨hr', hlength'.trans hlength₁⟩

theorem singleton (hc : isMark c = false) : Level [c] := by
  intro m r r' hr h
  obtain ⟨r₁, hstep, h⟩ := Option.bind_eq_some_iff.mp h
  obtain rfl := Option.some.inj h
  obtain ⟨l, -, -, hl, -, rfl⟩ | ⟨q, hq, hturn⟩ := step_of_not_isQuoted hr hstep
  · exact ⟨hl, rfl⟩
  · rw [← length_of_endToken hq]
    have hlexeme : q.lexeme.isQuoted = false := by rw [lexeme_of_endToken hq]; rfl
    cases hturn with
    | blank | number | word => exact ⟨rfl, rfl⟩
    | comma | colon => exact ⟨hlexeme, rfl⟩
    | quote | openArray | openObject | closeArray | closeObject => cases hc

theorem of_forall (h : ∀ c ∈ cs, isMark c = false) : Level cs := by
  induction cs with
  | nil => exact nil
  | cons c cs ih =>
    obtain ⟨hc, hcs⟩ := List.forall_mem_cons.mp h
    exact (singleton hc).append (ih hcs)

theorem cons (hc : isMark c = false) (hcs : Level cs) : Level (c :: cs) := (singleton hc).append hcs

theorem quoted (s : String) : Level (Json.quoted s) := by
  intro m r r' hr h
  obtain ⟨r₁, hstep, hrest⟩ := Option.bind_eq_some_iff.mp h
  obtain ⟨q, hq, -⟩ := turn_of_step hr (by decide) hstep
  have hs : q.pushText s = some r' := by
    rw [← run_quoted (lexeme_of_endToken hq), Json.quoted, run_cons,
      ← step_eq_of_endToken hq (by decide)]
    exact h
  rw [← length_of_endToken hq]
  obtain ⟨entries, name, rest, hstack, rfl⟩ | ⟨-, rfl⟩ := pushText_cases hs
  · exact ⟨rfl, by simp [hstack]⟩
  · exact ⟨by rw [lexeme_placed]; rfl, length_placed _ _⟩

/-- Brackets of either kind around a level text. -/
theorem bracketed (hc : c = '[' ∨ c = '\x7b') (hd : d = ']' ∨ d = '\x7d') (hcs : Level cs) :
    Level (c :: (cs ++ [d])) := by
  intro m r r' hr h
  rw [run_cons] at h
  obtain ⟨r₁, hopen, h⟩ := Option.bind_eq_some_iff.mp h
  rw [run_append] at h
  obtain ⟨r₂, hrun, h⟩ := Option.bind_eq_some_iff.mp h
  obtain ⟨hr₁, hlength₁⟩ := length_of_step_open hr hc hopen
  obtain ⟨hr₂, hlength₂⟩ := hcs hr₁ hrun
  obtain ⟨hr', hlength'⟩ := length_of_step_close hr₂ hd (by simpa using h)
  exact ⟨hr', by omega⟩

end Level

/-- **Lines in front of a level text make no document with it**, whatever documents, brackets or
quotes they hold, unless they are blank. -/
theorem readWithin?_append_eq_none {m : Nat} {log cs : List Char}
    (hnonblank : ∃ c ∈ log, isBlank c = false) (hend : log.getLast? = some '\n')
    (hlevel : Level cs) (hhead : ∃ c ds, cs = c :: ds ∧ isBlank c = false) :
    readWithin? m (log ++ cs) = none := by
  rw [readWithin?, run_append, Option.bind_assoc]
  refine Option.bind_eq_none_iff.mpr fun r hlog => ?_
  have hcoherent := coherent_start.run hlog
  have hstart := ne_start_of_run coherent_start hlog (.inr hnonblank)
  have hlexeme : r.lexeme = .between := by
    obtain ⟨lines, rfl⟩ := List.getLast?_eq_some_iff.mp hend
    rw [run_append] at hlog
    obtain ⟨q, -, hstep⟩ := Option.bind_eq_some_iff.mp hlog
    exact lexeme_of_step_newline (by simpa using hstep)
  by_cases hstack : r.stack = []
  · -- with nothing open, a document is complete, and the text cannot follow it
    obtain ⟨v, hending⟩ : ∃ v, r.expecting = .ending v := by
      obtain ⟨lexeme, expecting, stack⟩ := r
      cases expecting <;> simp_all [Coherent, start]
    obtain ⟨c, ds, rfl, hc⟩ := hhead
    exact finish_run_of_ending hlexeme hending hstack hc
  · -- a container that is open stays open
    refine Option.bind_eq_none_iff.mpr fun r' hrun => ?_
    refine Option.eq_none_iff_forall_ne_some.mpr fun v hfinish => ?_
    obtain ⟨-, hlength⟩ := hlevel (by rw [hlexeme]; rfl) hrun
    obtain ⟨q, hq, hending⟩ := finish_eq_some hfinish
    have hclosed := (hcoherent.run hrun).endToken hq
    rw [Coherent, hending] at hclosed
    rw [← length_of_endToken hq, hclosed] at hlength
    exact hstack (List.length_eq_zero_iff.mp hlength.symm)

end StateFlow.Json
