import StateFlow.Text.Blank

/-!
# The lines and the ends of a text

A text that begins and ends with a character that is no blank is what trimming leaves of it, with
whatever blanks around it.  The lines of a text that was cut after a line end are the lines of both
parts.

## Main definitions

* `Text.Solid`: the text begins and ends with a character that is no blank

## Main results

* `Text.trim_append_solid`: blanks before and after a solid text
* `Text.lines_append`: a text cut after a line end
-/

namespace StateFlow.Text

variable {cs ds log blanks : List Char}

/-! ## Ends -/

/-- The text begins and ends with a character that is no blank. -/
structure Solid (cs : List Char) : Prop where
  head : ∃ c ds, cs = c :: ds ∧ isBlank c = false
  last : ∃ c ds, cs = ds ++ [c] ∧ isBlank c = false

theorem Solid.ne_nil (h : Solid cs) : cs ≠ [] := by
  obtain ⟨c, ds, rfl, -⟩ := h.head
  exact List.cons_ne_nil c ds

/-- Whatever stands between two characters that are no blanks. -/
theorem solid_between {c d : Char} (hc : isBlank c = false) (cs : List Char)
    (hd : isBlank d = false) : Solid (c :: (cs ++ [d])) :=
  ⟨⟨c, cs ++ [d], rfl, hc⟩, ⟨d, c :: cs, rfl, hd⟩⟩

theorem solid_singleton {c : Char} (hc : isBlank c = false) : Solid [c] :=
  ⟨⟨c, [], rfl, hc⟩, ⟨c, [], rfl, hc⟩⟩

theorem solid_of_forall (hne : cs ≠ []) (h : ∀ c ∈ cs, isBlank c = false) : Solid cs := by
  obtain ⟨c, ds, rfl⟩ := List.exists_cons_of_ne_nil hne
  refine ⟨⟨c, ds, rfl, h c List.mem_cons_self⟩, ?_⟩
  exact ⟨_, _, (List.dropLast_concat_getLast hne).symm, h _ (List.getLast_mem hne)⟩

theorem dropWhile_append_solid (log : List Char) (hcs : Solid cs) (ds : List Char) :
    (log ++ (cs ++ ds)).dropWhile isBlank = log.dropWhile isBlank ++ (cs ++ ds) := by
  obtain ⟨c, cs, rfl, hc⟩ := hcs.head
  rw [List.dropWhile_append]
  split
  · next hempty =>
    rw [List.isEmpty_iff.mp hempty, List.nil_append, List.cons_append, List.dropWhile_cons_of_neg]
    simp [hc]
  · rfl

theorem trimEnd_append_solid (log : List Char) (hcs : Solid cs)
    (hblanks : ∀ c ∈ blanks, isBlank c = true) : trimEnd (log ++ (cs ++ blanks)) = log ++ cs := by
  obtain ⟨c, cs, rfl, hc⟩ := hcs.last
  have hall : ∀ d ∈ blanks.reverse, isBlank d = true := fun d hd =>
    hblanks d (List.mem_reverse.mp hd)
  rw [trimEnd, List.reverse_append, List.reverse_append, List.append_assoc,
    List.dropWhile_append_of_pos hall, List.reverse_append, List.reverse_singleton,
    List.singleton_append, List.cons_append, List.dropWhile_cons_of_neg (by simp [hc])]
  simp

/-- Blanks at the ends of a text that goes on to a solid part. -/
theorem trim_append_solid (log : List Char) (hcs : Solid cs)
    (hblanks : ∀ c ∈ blanks, isBlank c = true) :
    trim (log ++ (cs ++ blanks)) = log.dropWhile isBlank ++ cs := by
  rw [trim, dropWhile_append_solid log hcs, trimEnd_append_solid _ hcs hblanks]

theorem trim_append_of_solid (log : List Char) (hcs : Solid cs) :
    trim (log ++ cs) = log.dropWhile isBlank ++ cs := by
  simpa using trim_append_solid log hcs (List.forall_mem_nil fun c => isBlank c = true)

theorem trim_solid (hcs : Solid cs) : trim cs = cs := trim_append_of_solid [] hcs

/-- What follows a solid text loses the blanks at its end only. -/
theorem trimEnd_solid_append (hcs : Solid cs) (ds : List Char) :
    trimEnd (cs ++ ds) = cs ++ trimEnd ds := by
  obtain ⟨c, cs, rfl, hc⟩ := hcs.last
  have hdrop := dropWhile_append_solid ds.reverse (solid_singleton hc) cs.reverse
  rw [trimEnd, List.reverse_append, List.reverse_append, List.reverse_singleton, hdrop, trimEnd]
  simp

theorem trim_solid_append (hcs : Solid cs) (ds : List Char) :
    trim (cs ++ ds) = cs ++ trimEnd ds := by
  have hdrop := dropWhile_append_solid [] hcs ds
  rw [List.nil_append, List.dropWhile_nil, List.nil_append] at hdrop
  rw [trim, hdrop, trimEnd_solid_append hcs]

theorem trim_append_blanks (cs : List Char) (hblanks : ∀ c ∈ blanks, isBlank c = true) :
    trim (cs ++ blanks) = trim cs := by
  have hend (cs : List Char) : trimEnd (cs ++ blanks) = trimEnd cs := by
    have hall : ∀ d ∈ blanks.reverse, isBlank d = true := fun d hd =>
      hblanks d (List.mem_reverse.mp hd)
    rw [trimEnd, List.reverse_append, List.dropWhile_append_of_pos hall, trimEnd]
  rw [trim, trim, List.dropWhile_append]
  split
  · next hempty =>
    rw [List.isEmpty_iff.mp hempty]
    have hdrop : (blanks ++ []).dropWhile isBlank = [] := List.dropWhile_append_of_pos hblanks
    simpa using congrArg trimEnd hdrop
  · exact hend _

/-! ## Lines -/

theorem lines_cons {c : Char} (hc : c ≠ '\n') (hcs : c = '\r' → cs.head? ≠ some '\n') :
    lines (c :: cs) = (c :: (lines cs).headD []) :: (lines cs).tail := by
  rw [lines]
  · cases lines cs <;> rfl
  · rintro ds rfl rfl
    exact hcs rfl rfl
  · exact hc

theorem lines_of_not_mem (hne : cs ≠ []) (h : '\n' ∉ cs) : lines cs = [cs] := by
  induction cs with
  | nil => exact absurd rfl hne
  | cons c cs ih =>
    obtain ⟨hc, hcs⟩ := List.ne_and_not_mem_of_not_mem_cons h
    rw [lines_cons hc.symm fun _ hhead => hcs (List.mem_of_head? hhead)]
    cases cs with
    | nil => rfl
    | cons d ds => rw [ih (List.cons_ne_nil d ds) hcs]; rfl

/-- A line without its line end; a carriage return before the line feed belongs to the end. -/
theorem exists_lines_line (h : '\n' ∉ cs) (ds : List Char) :
    ∃ line, lines (cs ++ '\n' :: ds) = line :: lines ds ∧ (cs = line ∨ cs = line ++ ['\r']) := by
  induction cs with
  | nil => exact ⟨[], rfl, .inl rfl⟩
  | cons c cs ih =>
    obtain ⟨hc, hcs⟩ := List.ne_and_not_mem_of_not_mem_cons h
    by_cases hreturn : c = '\r' ∧ cs = []
    · obtain ⟨rfl, rfl⟩ := hreturn
      exact ⟨[], rfl, .inr rfl⟩
    · have hhead : c = '\r' → (cs ++ '\n' :: ds).head? ≠ some '\n' := by
        intro hc hhead
        cases cs with
        | nil => exact hreturn ⟨hc, rfl⟩
        | cons d cs => exact hcs (by simpa using Or.inl hhead.symm)
      obtain ⟨line, hlines, hline⟩ := ih hcs
      refine ⟨c :: line, by rw [List.cons_append, lines_cons hc.symm hhead, hlines]; rfl, ?_⟩
      exact hline.imp (congrArg (c :: ·)) (congrArg (c :: ·))

theorem lines_ne_nil (h : cs ≠ []) : lines cs ≠ [] := by
  induction cs using lines.induct with
  | case1 => exact absurd rfl h
  | case2 | case3 => simp [lines]
  | case4 c cs hreturn hc | case5 c cs hreturn hc =>
    rw [lines_cons hc fun hc hhead => (List.head?_eq_some_iff.mp hhead).elim (hreturn · hc)]
    exact List.cons_ne_nil _ _

/-- A text that was cut after a line end. -/
theorem lines_append (hlog : log = [] ∨ log.getLast? = some '\n') (cs : List Char) :
    lines (log ++ cs) = lines log ++ lines cs := by
  have hrest {c : Char} {log : List Char} (h : (c :: log).getLast? = some '\n') :
      log = [] ∨ log.getLast? = some '\n' := by
    cases log with
    | nil => exact .inl rfl
    | cons d log => exact .inr (by simpa using h)
  induction log using lines.induct with
  | case1 => rfl
  | case2 log ih =>
    rw [List.cons_append, List.cons_append, lines, lines, List.cons_append]
    have hend := (hrest (hlog.resolve_left (by simp))).resolve_left (by simp)
    exact congrArg ([] :: ·) (ih (hrest hend))
  | case3 log ih =>
    rw [List.cons_append, lines, lines, List.cons_append]
    exact congrArg ([] :: ·) (ih (hrest (hlog.resolve_left (by simp))))
  | case4 c log hreturn hc _ ih | case5 c log hreturn hc _ _ _ ih =>
    obtain rfl | hend := hrest (hlog.resolve_left (by simp))
    · exact absurd (by simpa using hlog) hc
    have hne : log ≠ [] := by
      rintro rfl
      cases hend
    obtain ⟨d, log, rfl⟩ := List.exists_cons_of_ne_nil hne
    have hhead : c = '\r' → (d :: log).head? ≠ some '\n' := fun hc hhead =>
      hreturn log hc (congrArg (· :: log) (Option.some.inj hhead))
    have hline : lines (c :: (d :: log ++ cs)) = _ := lines_cons hc hhead
    rw [List.cons_append, lines_cons hc hhead, hline, ih (.inr hend)]
    cases hlines : lines (d :: log) with
    | nil => exact absurd hlines (lines_ne_nil hne)
    | cons line rest => rfl

end StateFlow.Text
