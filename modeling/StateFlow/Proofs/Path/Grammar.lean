import StateFlow.Path.Basic
import StateFlow.Proofs.Traversal

/-!
# The grammar of paths

An expression is a root marker and names with a dot before each.  `Path.read` accepts the
expressions of this grammar and no other text, and what it reads is all there is in the text: the
path writes the expression again, and every path of names is read back from what it writes
(`Path.read_grammar`).

The marker `$` is the beginning of the marker `$$`.  That does no harm, as what follows a marker
begins with a dot, while a `$` inside a name is a character like others.

## Main definitions

* `Path.IsName`: what may stand between two dots
* `Path.Dotted`, `Path.Expression`: the grammar

## Main results

* `Path.pieces_eq_splitOn`: pieces are what the dots of a text split it into
* `Path.read_eq_ok_iff`: a text is read as the path of proper names that writes it
* `Path.read_grammar`: which texts are read, and what as
-/

namespace StateFlow.Path

/-! ## The grammar -/

/-- The characters that no name holds. -/
def excluded : List Char := ['.', '[', ']', '*', '?', '@', '(', ')']

/-- What may stand between two dots. -/
def IsName (cs : List Char) : Prop := cs ≠ [] ∧ ∀ c ∈ cs, c ∉ excluded

-- the characters of the text are looked through, not all that there are
instance : DecidablePred IsName := fun cs =>
  @instDecidableAnd _ _ inferInstance (List.decidableBAll (· ∉ excluded) cs)

/-- Zero or more names with a dot before each. -/
inductive Dotted : List Char → Prop
  | nil : Dotted []
  | cons {name rest : List Char} (hname : IsName name) (hrest : Dotted rest) :
      Dotted ('.' :: name ++ rest)

/-- A marker, and names with a dot before each. -/
inductive Expression : List Char → Prop
  | payload {rest : List Char} (h : Dotted rest) : Expression ('$' :: rest)
  | context {rest : List Char} (h : Dotted rest) : Expression ('$' :: '$' :: rest)

theorem properName_iff {s : String} : ProperName s ↔ IsName s.toList := by
  have hexcluded : ∀ c, c ∉ excluded ↔ c ≠ '.' ∧ isReserved c = false := by
    intro c
    simp [excluded, isReserved, and_assoc]
  simp only [ProperName, IsName, hexcluded]

/-- What paths write after their marker. -/
theorem dotted_iff {cs : List Char} :
    Dotted cs ↔ ∃ names : List String, (∀ s ∈ names, ProperName s) ∧
      (names.flatMap fun s => '.' :: s.toList) = cs := by
  constructor
  · intro h
    induction h with
    | nil => exact ⟨[], nofun, rfl⟩
    | @cons name rest hname _ ih =>
      obtain ⟨names, hnames, rfl⟩ := ih
      refine ⟨String.ofList name :: names, ?_, ?_⟩
      · refine List.forall_mem_cons.mpr ⟨properName_iff.mpr ?_, hnames⟩
        rwa [String.toList_ofList]
      · rw [List.flatMap_cons, String.toList_ofList]
  · rintro ⟨names, hnames, rfl⟩
    induction names with
    | nil => exact .nil
    | cons s names ih =>
      obtain ⟨hs, hnames⟩ := List.forall_mem_cons.mp hnames
      exact .cons (properName_iff.mp hs) (ih hnames)

/-! ## Pieces -/

theorem pieces_eq_splitOn (cs : List Char) : pieces cs = cs.splitOn '.' := by
  induction cs with
  | nil => rfl
  | cons c cs ih =>
    rw [pieces, ih, List.splitOn_cons_eq_if_modifyHead]
    simp only [beq_iff_eq]
    split
    · rfl
    · obtain ⟨p, ps, h⟩ := List.exists_cons_of_ne_nil (List.splitOn_ne_nil '.' cs)
      rw [h]
      rfl

theorem not_mem_of_mem_splitOn {a : Char} {cs piece : List Char} (h : piece ∈ cs.splitOn a) :
    a ∉ piece := by
  induction cs generalizing piece with
  | nil =>
    obtain rfl := List.mem_singleton.mp h
    exact List.not_mem_nil
  | cons c cs ih =>
    rw [List.splitOn_cons_eq_if_modifyHead] at h
    split at h
    · rcases List.mem_cons.mp h with rfl | h
      · exact List.not_mem_nil
      · exact ih h
    · next hc =>
      obtain ⟨first, later, hsplit⟩ := List.exists_cons_of_ne_nil (List.splitOn_ne_nil a cs)
      rw [hsplit] at h ih
      rcases List.mem_cons.mp h with rfl | h
      · rw [List.mem_cons, not_or]
        refine ⟨?_, ih List.mem_cons_self⟩
        rintro rfl
        exact hc (beq_self_eq_true _)
      · exact ih (List.mem_cons_of_mem first h)

/-- Pieces with a dot between them, and one before. -/
theorem cons_intercalate {ps : List (List Char)} (h : ps ≠ []) :
    '.' :: ['.'].intercalate ps = ps.flatMap ('.' :: ·) := by
  induction ps with
  | nil => exact (h rfl).elim
  | cons p ps ih =>
    cases ps with
    | nil => simp
    | cons q ps =>
      rw [List.flatMap_cons, ← ih (List.cons_ne_nil q ps), List.intercalate_cons_cons,
        List.append_assoc]
      rfl

/-- The pieces of a text are those without dots that give it together. -/
theorem pieces_eq_iff {cs : List Char} {ps : List (List Char)} :
    pieces cs = ps ↔ (∀ p ∈ ps, '.' ∉ p) ∧ ps.flatMap ('.' :: ·) = '.' :: cs := by
  rw [pieces_eq_splitOn]
  constructor
  · rintro rfl
    refine ⟨fun p hp => not_mem_of_mem_splitOn hp, ?_⟩
    rw [← cons_intercalate (List.splitOn_ne_nil '.' cs), List.intercalate_splitOn]
  · rintro ⟨hdots, htext⟩
    have hne : ps ≠ [] := by
      rintro rfl
      cases htext
    rw [← cons_intercalate hne] at htext
    obtain rfl := List.tail_eq_of_cons_eq htext
    exact List.splitOn_intercalate '.' hdots hne

/-! ## Reading -/

theorem nameOf_eq_ok_iff {piece : List Char} {s : String} :
    nameOf piece = .ok s ↔
      (piece ≠ [] ∧ ∀ c ∈ piece, isReserved c = false) ∧ piece = s.toList := by
  unfold nameOf
  split
  · next hempty => exact ⟨nofun, fun h => (h.1.1 hempty).elim⟩
  · next hempty =>
    cases hfind : piece.find? isReserved with
    | some c =>
      refine ⟨nofun, fun h => ?_⟩
      have hreserved := h.1.2 c (List.mem_of_find?_eq_some hfind)
      rw [List.find?_some hfind] at hreserved
      cases hreserved
    | none =>
      have hfree : ∀ c ∈ piece, isReserved c = false := by
        simpa [List.find?_eq_none] using hfind
      constructor
      · intro h
        cases h
        exact ⟨⟨hempty, hfree⟩, String.toList_ofList.symm⟩
      · rintro ⟨-, rfl⟩
        exact congrArg Except.ok String.ofList_toList

theorem namesOf_eq_mapM (ps : List (List Char)) : namesOf ps = ps.mapM nameOf := by
  induction ps with
  | nil => rfl
  | cons p ps ih => rw [namesOf, ih, List.mapM_cons]

theorem namesOf_eq_ok_iff {ps : List (List Char)} {names : List String} :
    namesOf ps = .ok names ↔ ps = names.map String.toList ∧
      ∀ s ∈ names, s.toList ≠ [] ∧ ∀ c ∈ s.toList, isReserved c = false := by
  have hequal : List.Forall₂ (fun p (s : String) => p = s.toList) ps names ↔
      ps = names.map String.toList := by
    rw [← List.forall₂_map_right_iff (R := Eq) (f := String.toList), List.forall₂_eq_eq_eq]
  simp only [namesOf_eq_mapM, mapM_eq_ok_iff, nameOf_eq_ok_iff, List.forall₂_and_left, hequal]
  rw [and_comm]
  refine and_congr_right ?_
  rintro rfl
  exact List.forall_mem_map

/-- Names are read from what they write. -/
theorem readNames_eq_ok_iff {cs : List Char} {names : List String} :
    readNames cs = .ok names ↔
      (∀ s ∈ names, ProperName s) ∧ (names.flatMap fun s => '.' :: s.toList) = cs := by
  unfold readNames
  split
  · constructor
    · intro h
      cases h
      exact ⟨nofun, rfl⟩
    · rintro ⟨-, h⟩
      cases names with
      | nil => rfl
      | cons s names => cases h
  · next cs =>
    have hproper : ∀ s : String, ProperName s ↔ '.' ∉ s.toList ∧ s.toList ≠ [] ∧
        ∀ c ∈ s.toList, isReserved c = false := by
      intro s
      rw [ProperName, forall₂_and, ← List.forall_mem_ne']
      exact and_left_comm
    rw [namesOf_eq_ok_iff, pieces_eq_iff, List.flatMap_map, List.forall_mem_map,
      and_right_comm]
    simp only [hproper, imp_and, forall_and]
  · next c cs hdot =>
    refine ⟨nofun, ?_⟩
    rintro ⟨-, h⟩
    cases names with
    | nil => cases h
    | cons s names =>
      cases h
      exact (hdot rfl).elim

theorem readChars_eq_ok_iff {cs : List Char} {path : Path} :
    readChars cs = .ok path ↔ (∀ s ∈ path.names, ProperName s) ∧ path.chars = cs := by
  constructor
  · intro h
    have hpath : ∀ root rest, (do return (⟨root, ← readNames rest⟩ : Path)) = Except.ok path →
        (∀ s ∈ path.names, ProperName s) ∧ path.chars = marker root ++ rest := by
      intro root rest h
      obtain ⟨names, hnames, heq⟩ := bind_eq_ok_iff.mp h
      cases heq
      obtain ⟨hproper, rfl⟩ := readNames_eq_ok_iff.mp hnames
      exact ⟨hproper, rfl⟩
    unfold readChars at h
    split at h
    · exact hpath .context _ h
    · exact hpath .payload _ h
    · cases h
  · rintro ⟨hproper, rfl⟩
    obtain ⟨root, names⟩ := path
    have hnames := readNames_eq_ok_iff.mpr ⟨hproper, rfl⟩
    cases root with
    | context =>
      exact bind_eq_ok_iff.mpr ⟨names, hnames, rfl⟩
    | payload =>
      -- a name has a dot before it, so the marker is not taken for the longer one
      cases names with
      | nil => rfl
      | cons s names => exact bind_eq_ok_iff.mpr ⟨s :: names, hnames, rfl⟩

/-- **A text is read as the path of proper names that writes it.** -/
theorem read_eq_ok_iff {e : String} {path : Path} :
    read e = .ok path ↔ (∀ s ∈ path.names, ProperName s) ∧ path.text = e := by
  rw [read, readChars_eq_ok_iff, text, ← String.toList_inj, String.toList_ofList]

/-- What paths write. -/
theorem expression_iff {cs : List Char} :
    Expression cs ↔ ∃ path : Path, (∀ s ∈ path.names, ProperName s) ∧ path.chars = cs := by
  constructor
  · intro h
    cases h with
    | payload h =>
      obtain ⟨names, hnames, rfl⟩ := dotted_iff.mp h
      exact ⟨⟨.payload, names⟩, hnames, rfl⟩
    | context h =>
      obtain ⟨names, hnames, rfl⟩ := dotted_iff.mp h
      exact ⟨⟨.context, names⟩, hnames, rfl⟩
  · rintro ⟨⟨root, names⟩, hnames, rfl⟩
    have hdotted := dotted_iff.mpr ⟨names, hnames, rfl⟩
    cases root with
    | payload => exact .payload hdotted
    | context => exact .context hdotted

/-- **Reading accepts the grammar and loses nothing.**  A text is read exactly when it is an
expression, the path that it is read as writes the text again, and every path of names is read back
from what it writes. -/
theorem read_grammar :
    (∀ e : String, (∃ path, read e = .ok path) ↔ Expression e.toList) ∧
    (∀ (e : String) (path : Path), read e = .ok path → path.text = e) ∧
    ∀ (root : Root) (names : List String), (∀ name ∈ names, IsName name.toList) →
      read (text ⟨root, names⟩) = .ok ⟨root, names⟩ := by
  refine ⟨fun e => ?_, fun e path h => (read_eq_ok_iff.mp h).2, fun root names hnames => ?_⟩
  · rw [expression_iff]
    simp only [read, readChars_eq_ok_iff]
  · have hproper : ∀ name ∈ names, ProperName name :=
      fun name hname => properName_iff.mpr (hnames name hname)
    exact read_eq_ok_iff.mpr ⟨hproper, rfl⟩

/-- A name may consist of markers, but a third marker is not the beginning of one. -/
theorem read_grammar_marker :
    (∀ name ∈ ["$$", "a b"], IsName name.toList) ∧
    text ⟨.payload, ["$$", "a b"]⟩ = "$.$$.a b" ∧
    read "$.$$.a b" = .ok ⟨.payload, ["$$", "a b"]⟩ ∧ ¬ ∃ path, read "$$$.a" = .ok path := by
  obtain ⟨haccepts, -, hread⟩ := read_grammar
  have hnames : ∀ name ∈ ["$$", "a b"], IsName name.toList := by decide
  refine ⟨hnames, rfl, hread .payload ["$$", "a b"] hnames, ?_⟩
  rw [haccepts]
  intro h
  change Expression ['$', '$', '$', '.', 'a'] at h
  cases h with
  | payload h => cases h
  | context h => cases h

end StateFlow.Path
