import Mathlib.Data.List.Forall2
import StateFlow.Choice.Evaluate

/-!
# Wildcard patterns are read and matched exactly

A pattern is written with parts: `\*` is a star, any other `*` is any run of characters, and every
other character stands for itself.  `Wildcard.parts` reads them off the pattern, and
`Wildcard.accepts` decides whether a text fits them without trying cuts: it goes through the places
of the text once for each part.  A text fits exactly when it can be cut into pieces, one for each
part and in order, such that each piece is one that its part stands for.

With a backslash before each of its stars a text is a pattern that only the text itself fits.  That
needs no care for the backslashes in the text: one before a star is followed by the backslash that
was put there, and so it stands for itself.

## Main definitions

* `Wildcard.Written`: the parts that a pattern is written with
* `Wildcard.StandsFor`: the pieces that a part stands for
* `Wildcard.Cut`: a text can be cut into pieces that fit a pattern
* `Wildcard.escape`: a text with a backslash before each star

## Main results

* `Wildcard.accepts_iff_matches`: the decision is right
* `Wildcard.holds_like_iff`: when a comparison with a pattern holds
-/

namespace StateFlow.Wildcard

/-! ## The parts of a pattern -/

/-- The parts that a pattern is written with. -/
inductive Written : List Char → List Wildcard → Prop
  | nil : Written [] []
  | star {cs : List Char} {ps : List Wildcard} (h : Written cs ps) :
      Written ('\\' :: '*' :: cs) (exactly '*' :: ps)
  | run {cs : List Char} {ps : List Wildcard} (h : Written cs ps) : Written ('*' :: cs) (run :: ps)
  /-- A character that is no star, and no backslash before a star. -/
  | plain {c : Char} {cs : List Char} {ps : List Wildcard} (hstar : c ≠ '*')
      (hescape : c = '\\' → cs.head? ≠ some '*') (h : Written cs ps) :
      Written (c :: cs) (exactly c :: ps)

theorem written_parts (cs : List Char) : Written cs (parts cs) := by
  induction cs using parts.induct with
  | case1 => exact .nil
  | case2 cs ih => exact .star ih
  | case3 c cs hescape ih =>
    rw [parts]
    · split
      · next hc => exact hc ▸ .run ih
      · next hc =>
        refine .plain hc (fun hbackslash hhead => ?_) ih
        obtain ⟨rest, rfl⟩ := List.head?_eq_some_iff.mp hhead
        exact hescape rest hbackslash rfl
    · exact hescape

theorem parts_of_written {cs : List Char} {ps : List Wildcard} (h : Written cs ps) :
    parts cs = ps := by
  induction h with
  | nil => rfl
  | star _ ih => rw [parts, ih]
  | run _ ih => rw [parts, ih, if_pos rfl]; nofun
  | @plain c cs _ hstar hescape _ ih =>
    rw [parts, ih, if_neg hstar]
    rintro rest rfl rfl
    exact hescape rfl rfl

/-- A pattern is written with the parts that are read off it, and with no others. -/
theorem written_iff {cs : List Char} {ps : List Wildcard} : Written cs ps ↔ parts cs = ps :=
  ⟨parts_of_written, fun h => h ▸ written_parts cs⟩

/-! ## Matching -/

theorem matches_nil_iff {text : List Char} : Matches [] text ↔ text = [] := by
  constructor
  · intro h
    cases h
    rfl
  · rintro rfl
    exact .nil

theorem not_matches_exactly_nil {c : Char} {ps : List Wildcard} :
    ¬ Matches (Wildcard.exactly c :: ps) [] := nofun

theorem matches_exactly_cons {c d : Char} {ps : List Wildcard} {text : List Char} :
    Matches (Wildcard.exactly c :: ps) (d :: text) ↔ c = d ∧ Matches ps text := by
  constructor
  · intro h
    cases h with
    | exactly h => exact ⟨rfl, h⟩
  · rintro ⟨rfl, h⟩
    exact .exactly h

theorem matches_run_iff {ps : List Wildcard} {text : List Char} :
    Matches (Wildcard.run :: ps) text ↔ ∃ piece rest, text = piece ++ rest ∧ Matches ps rest := by
  constructor
  · intro h
    cases h with
    | @run _ piece rest h => exact ⟨piece, rest, rfl, h⟩
  · rintro ⟨piece, rest, rfl, h⟩
    exact .run h

theorem matches_run_nil {ps : List Wildcard} :
    Matches (Wildcard.run :: ps) [] ↔ Matches ps [] := by
  rw [matches_run_iff]
  constructor
  · rintro ⟨piece, rest, htext, h⟩
    obtain ⟨-, rfl⟩ := List.append_eq_nil_iff.mp htext.symm
    exact h
  · exact fun h => ⟨[], [], rfl, h⟩

/-- A run takes nothing, or it takes one character and goes on. -/
theorem matches_run_cons {d : Char} {ps : List Wildcard} {text : List Char} :
    Matches (Wildcard.run :: ps) (d :: text) ↔
      Matches ps (d :: text) ∨ Matches (Wildcard.run :: ps) text := by
  rw [matches_run_iff, matches_run_iff]
  constructor
  · rintro ⟨piece, rest, htext, h⟩
    cases piece with
    | nil => exact .inl (htext ▸ h)
    | cons e piece =>
      obtain ⟨-, rfl⟩ := List.cons.inj htext
      exact .inr ⟨piece, rest, rfl, h⟩
  · rintro (h | ⟨piece, rest, rfl, h⟩)
    · exact ⟨[], d :: text, rfl, h⟩
    · exact ⟨d :: piece, rest, rfl, h⟩

/-! ## The decision -/

theorem fitsFrom_nil (ps : List Wildcard) : fitsFrom [] ps = [accepts ps []] := by
  have hlength : ∃ fit, fitsFrom [] ps = [fit] := by
    induction ps with
    | nil => exact ⟨true, rfl⟩
    | cons p ps ih =>
      obtain ⟨fit, hfit⟩ := ih
      cases p with
      | exactly c => exact ⟨false, rfl⟩
      | run => exact ⟨_, congrArg reach hfit⟩
  obtain ⟨fit, hfit⟩ := hlength
  rw [accepts, hfit, List.head?_cons, Option.getD_some]

/-- What is worked out for the later places of a text does not depend on its first character. -/
theorem fitsFrom_cons (c : Char) (text : List Char) (ps : List Wildcard) :
    fitsFrom (c :: text) ps = accepts ps (c :: text) :: fitsFrom text ps := by
  have htail : ∃ fit, fitsFrom (c :: text) ps = fit :: fitsFrom text ps := by
    induction ps with
    | nil => exact ⟨false, rfl⟩
    | cons p ps ih =>
      obtain ⟨fit, hfit⟩ := ih
      cases p with
      | exactly d => exact ⟨_, congrArg (extend d (c :: text)) hfit⟩
      | run => exact ⟨_, congrArg reach hfit⟩
  obtain ⟨fit, hfit⟩ := htail
  rw [accepts, hfit, List.head?_cons, Option.getD_some]

theorem accepts_exactly_cons (c d : Char) (ps : List Wildcard) (text : List Char) :
    accepts (exactly c :: ps) (d :: text) = (c == d && accepts ps text) := by
  change (extend c (d :: text) (fitsFrom (d :: text) ps)).head?.getD false = _
  rw [fitsFrom_cons]
  rfl

theorem accepts_run_nil (ps : List Wildcard) : accepts (run :: ps) [] = accepts ps [] := by
  change (reach (fitsFrom [] ps)).head?.getD false = _
  rw [fitsFrom_nil]
  exact Bool.or_false _

theorem accepts_run_cons (d : Char) (ps : List Wildcard) (text : List Char) :
    accepts (run :: ps) (d :: text) = (accepts ps (d :: text) || accepts (run :: ps) text) := by
  change (reach (fitsFrom (d :: text) ps)).head?.getD false = _
  rw [fitsFrom_cons]
  rfl

/-- **The decision is right**: a text is accepted exactly when it can be cut into pieces that fit
the parts in order. -/
theorem accepts_iff_matches (ps : List Wildcard) (text : List Char) :
    accepts ps text = true ↔ Matches ps text := by
  induction ps generalizing text with
  | nil =>
    rw [matches_nil_iff]
    cases text <;> simp [accepts, fitsFrom, List.replicate_succ]
  | cons p ps ih =>
    cases p with
    | exactly c =>
      cases text with
      | nil => exact ⟨nofun, fun h => (not_matches_exactly_nil h).elim⟩
      | cons d text =>
        rw [accepts_exactly_cons, matches_exactly_cons, Bool.and_eq_true, beq_iff_eq, ih]
    | run =>
      induction text with
      | nil => rw [accepts_run_nil, matches_run_nil, ih]
      | cons d text ihtext =>
        rw [accepts_run_cons, matches_run_cons, Bool.or_eq_true, ih, ihtext]

/-! ## Cuts -/

/-- The pieces of a text that a part stands for. -/
def StandsFor : Wildcard → List Char → Prop
  | run, _ => True
  | exactly c, piece => piece = [c]

/-- The text can be cut into pieces, one for each part of the pattern and in order, that the parts
stand for. -/
def Cut (pattern text : String) : Prop :=
  ∃ ps pieces, Written pattern.toList ps ∧ List.Forall₂ StandsFor ps pieces ∧
    pieces.flatten = text.toList

theorem matches_iff_pieces {ps : List Wildcard} {text : List Char} :
    Matches ps text ↔ ∃ pieces, List.Forall₂ StandsFor ps pieces ∧ pieces.flatten = text := by
  constructor
  · intro h
    induction h with
    | nil => exact ⟨[], .nil, rfl⟩
    | @exactly c ps cs _ ih =>
      obtain ⟨pieces, hpieces, rfl⟩ := ih
      exact ⟨[c] :: pieces, .cons rfl hpieces, rfl⟩
    | @run ps piece cs _ ih =>
      obtain ⟨pieces, hpieces, rfl⟩ := ih
      exact ⟨piece :: pieces, .cons trivial hpieces, rfl⟩
  · rintro ⟨pieces, hpieces, rfl⟩
    induction hpieces with
    | nil => exact .nil
    | @cons p piece ps pieces hpiece _ ih =>
      cases p with
      | exactly c =>
        obtain rfl : piece = [c] := hpiece
        exact .exactly ih
      | run => exact .run ih

theorem fits_iff_cut {pattern text : String} : fits pattern text = true ↔ Cut pattern text := by
  rw [fits, accepts_iff_matches, matches_iff_pieces]
  simp only [Cut, written_iff, exists_and_left, exists_eq_left']

/-! ## Patterns that one text fits -/

/-- The characters with a backslash before each star. -/
def escapeChars (cs : List Char) : List Char :=
  cs.flatMap fun c => if c = '*' then ['\\', '*'] else [c]

/-- The text with a backslash before each star. -/
def escape (text : String) : String := String.ofList (escapeChars text.toList)

theorem head?_escapeChars (cs : List Char) : (escapeChars cs).head? ≠ some '*' := by
  cases cs with
  | nil => nofun
  | cons c cs =>
    rw [escapeChars, List.flatMap_cons]
    split
    · simp
    · next hc => simpa using hc

/-- Each character of an escaped text stands for itself. -/
theorem written_escapeChars (cs : List Char) : Written (escapeChars cs) (cs.map exactly) := by
  induction cs with
  | nil => exact .nil
  | cons c cs ih =>
    rw [escapeChars, List.flatMap_cons, List.map_cons]
    split
    · next hc =>
      subst hc
      exact .star ih
    · next hc => exact .plain hc (fun _ => head?_escapeChars cs) ih

theorem matches_map_exactly {cs text : List Char} :
    Matches (cs.map Wildcard.exactly) text ↔ text = cs := by
  induction cs generalizing text with
  | nil => exact matches_nil_iff
  | cons c cs ih =>
    rw [List.map_cons]
    cases text with
    | nil => exact ⟨fun h => (not_matches_exactly_nil h).elim, nofun⟩
    | cons d text => rw [matches_exactly_cons, ih, List.cons.injEq, eq_comm]

theorem fits_escape_iff {t text : String} : fits (escape t) text = true ↔ text = t := by
  rw [fits, escape, String.toList_ofList, parts_of_written (written_escapeChars t.toList),
    accepts_iff_matches, matches_map_exactly, String.toList_inj]

/-! ## Comparisons with a pattern -/

variable {payload context : Json} {expression text : String}

theorem holds_like (h : resolve payload context expression = .ok (.string text))
    (next? : Option String) (pattern : String) :
    (Rule.test ⟨some expression, next?⟩ (.like pattern)).holds payload context =
      .ok (fits pattern text) := by
  simp only [Rule.holds, Test.holds, Test.subject, h]
  rfl

/-- **A text fits a pattern exactly when it can be cut into pieces that the parts of the pattern
stand for.**  The comparison has an answer for every pattern and every text, and the pattern that is
made of a text by escaping its stars fits that text and no other. -/
theorem holds_like_iff (h : resolve payload context expression = .ok (.string text))
    (next? : Option String) :
    (∀ pattern, ((Rule.test ⟨some expression, next?⟩ (.like pattern)).holds payload context =
        .ok true ↔ Cut pattern text) ∧
      ((Rule.test ⟨some expression, next?⟩ (.like pattern)).holds payload context =
        .ok false ↔ ¬ Cut pattern text)) ∧
    ∀ t, (Rule.test ⟨some expression, next?⟩ (.like (escape t))).holds payload context =
      .ok true ↔ text = t := by
  simp only [holds_like h, Except.ok.injEq]
  refine ⟨fun pattern => ⟨fits_iff_cut, ?_⟩, fun t => fits_escape_iff⟩
  rw [← fits_iff_cut, Bool.not_eq_true]

/-- Two runs around an escaped star, the first of them over a line break, and a backslash at the
end. -/
theorem holds_like_iff_lines :
    resolve (.string "log\n2*.txt\\") .null "$" = .ok (.string "log\n2*.txt\\") ∧
      Cut "l*\\**\\" "log\n2*.txt\\" ∧
      (Rule.test ⟨some "$", none⟩ (.like "l*\\**\\")).holds (.string "log\n2*.txt\\") .null =
        .ok true ∧
      (Rule.test ⟨some "$", none⟩ (.like (escape "log\n2*.txt\\"))).holds
        (.string "log\n2*.txt\\") .null = .ok true ∧
      (Rule.test ⟨some "$", none⟩ (.like (escape "log*"))).holds (.string "log\n2*.txt\\") .null ≠
        .ok true := by
  have hvalue : resolve (.string "log\n2*.txt\\") .null "$" =
      .ok (.string "log\n2*.txt\\") := rfl
  have hcut : Cut "l*\\**\\" "log\n2*.txt\\" :=
    ⟨_, [['l'], ['o', 'g', '\n', '2'], ['*'], ['.', 't', 'x', 't'], ['\\']],
      written_iff.mpr rfl, .cons rfl (.cons trivial (.cons rfl (.cons trivial (.cons rfl .nil)))),
      rfl⟩
  obtain ⟨hlike, hescape⟩ := holds_like_iff hvalue none
  exact ⟨hvalue, hcut, (hlike _).1.mpr hcut, (hescape _).mpr rfl, mt (hescape _).mp (by decide)⟩

end StateFlow.Wildcard
