import Mathlib.Data.List.TakeWhile
import StateFlow.Handler.Output
import StateFlow.Proofs.Json.RoundTrip

/-!
# A result on one line is found after any log

What a handler prints before its result may look like anything: a document, a part of one, brackets
or quotes that are never closed.  None of it can make a document of the whole output
(`Json.readWithin?_append_eq_none`), so the lines are looked at, the last one first, and that is the
result.

## Main definitions

* `Handler.documents`: the documents that stand on lines of their own

## Main results

* `Handler.readOutput?_append`: what is read from an output that ends with a level text
* `Handler.readOutput?_append_compact`: a result on one line is read, whatever log is before it
-/

namespace StateFlow.Handler

variable {log cs ds blanks : List Char}

/-- The documents that stand on lines of their own. -/
def documents (text : List Char) : List Json := (Text.lines text).filterMap readLine?

theorem findSome?_reverse_lines (text : List Char) :
    (Text.lines text).reverse.findSome? readLine? = (documents text).getLast? := by
  rw [← List.head?_filterMap, List.filterMap_reverse, List.head?_reverse, documents]

theorem readLine?_append_blanks (cs : List Char)
    (hblanks : ∀ c ∈ blanks, Text.isBlank c = true) : readLine? (cs ++ blanks) = readLine? cs := by
  rw [readLine?, readLine?, Text.trim_append_blanks cs hblanks]

theorem readLine?_blanks_append (hblanks : ∀ c ∈ blanks, Text.isBlank c = true) (cs : List Char) :
    readLine? (blanks ++ cs) = readLine? cs := by
  rw [readLine?, readLine?, Text.trim, Text.trim, List.dropWhile_append_of_pos hblanks]

@[simp] theorem documents_nil : documents [] = [] := rfl

theorem documents_of_not_mem (h : '\n' ∉ cs) : documents cs = (readLine? cs).toList := by
  by_cases hne : cs = []
  · subst hne
    rfl
  · rw [documents, Text.lines_of_not_mem hne h, List.filterMap_cons]
    cases readLine? cs <;> rfl

/-- The first line, and the lines after it. -/
theorem documents_line (h : '\n' ∉ cs) (ds : List Char) :
    documents (cs ++ '\n' :: ds) = (readLine? cs).toList ++ documents ds := by
  obtain ⟨line, hlines, hline⟩ := Text.exists_lines_line h ds
  have hread : readLine? cs = readLine? line := by
    obtain rfl | rfl := hline
    · rfl
    · exact readLine?_append_blanks line (List.all_eq_true.mp rfl)
  rw [documents, hlines, List.filterMap_cons, hread, documents]
  cases readLine? line <;> rfl

theorem documents_append (hlog : log = [] ∨ log.getLast? = some '\n') (cs : List Char) :
    documents (log ++ cs) = documents log ++ documents cs := by
  rw [documents, Text.lines_append hlog, List.filterMap_append, documents, documents]

/-- A blank in front of a text stands before its first line, or is a line without a document. -/
theorem documents_cons_blank {c : Char} (hc : Text.isBlank c = true) (cs : List Char) :
    documents (c :: cs) = documents cs := by
  have hfeed (ds : List Char) : documents ('\n' :: ds) = documents ds :=
    documents_line List.not_mem_nil ds
  by_cases hline : c = '\n'
  · rw [hline, hfeed]
  by_cases hreturn : c = '\r' ∧ cs.head? = some '\n'
  · obtain ⟨rfl, hhead⟩ := hreturn
    obtain ⟨ds, rfl⟩ := List.head?_eq_some_iff.mp hhead
    rw [hfeed]
    have hreturn : '\n' ∉ ['\r'] := by decide
    exact documents_line hreturn ds
  · have hblank (line : List Char) : readLine? (c :: line) = readLine? line :=
      readLine?_blanks_append (List.forall_mem_singleton.mpr hc) line
    rw [documents, Text.lines_cons hline fun hc hhead => hreturn ⟨hc, hhead⟩, List.filterMap_cons,
      hblank, documents]
    cases Text.lines cs with
    | nil => rfl
    | cons line rest => rw [List.filterMap_cons]; rfl

theorem documents_dropWhile (log : List Char) :
    documents (log.dropWhile Text.isBlank) = documents log := by
  induction log with
  | nil => rfl
  | cons c log ih =>
    by_cases hc : Text.isBlank c = true
    · rw [List.dropWhile_cons_of_pos hc, ih, documents_cons_blank hc]
    · rw [List.dropWhile_cons_of_neg hc]

/-! ## Outputs that end with a document -/

theorem isBlank_of_isBlank {c : Char} (h : Text.isBlank c = false) :
    Json.Reader.isBlank c = false := by
  refine Bool.eq_false_iff.mpr fun hblank => ?_
  simp only [Json.Reader.isBlank, Bool.or_eq_true, decide_eq_true_eq] at hblank
  obtain ((rfl | rfl) | rfl) | rfl := hblank <;> cases h

/-- A log, without the blanks in front of it: nothing, or lines of which some character is no
blank. -/
theorem dropWhile_log (hlog : log = [] ∨ log.getLast? = some '\n') :
    log.all Text.isBlank = true ∧ log.dropWhile Text.isBlank = [] ∨
      log.all Text.isBlank = false ∧ (log.dropWhile Text.isBlank).getLast? = some '\n' ∧
        ∃ c ∈ log.dropWhile Text.isBlank, Text.isBlank c = false := by
  have hhead := List.head?_dropWhile_not Text.isBlank log
  obtain ⟨front, hfront⟩ := List.dropWhile_suffix (l := log) Text.isBlank
  cases hrest : log.dropWhile Text.isBlank with
  | nil =>
    exact .inl ⟨List.all_eq_true.mpr (List.dropWhile_eq_nil_iff.mp hrest), rfl⟩
  | cons c rest =>
    rw [hrest] at hhead hfront
    refine .inr ⟨Bool.eq_false_iff.mpr fun hall => ?_, ?_, c, List.mem_cons_self, hhead⟩
    · rw [List.dropWhile_eq_nil_iff.mpr (List.all_eq_true.mp hall)] at hrest
      cases hrest
    · obtain rfl | hend := hlog
      · cases hrest
      · simp [← hend, ← hfront, List.getLast?_append, List.getLast?_cons]

/-- **What is read from an output that ends with a level text**: the text itself where only blanks
are before it, and otherwise the last document that stands on a line. -/
theorem readOutput?_append (hlog : log = [] ∨ log.getLast? = some '\n') (hsolid : Text.Solid cs)
    (hlevel : Json.Level cs) (hblanks : ∀ c ∈ blanks, Text.isBlank c = true) :
    readOutput? (String.ofList (log ++ (cs ++ blanks))) =
      (if log.all Text.isBlank then Json.readWithin? Json.maxDepth cs else none).or
        (documents log ++ documents cs).getLast? := by
  have htrim := Text.trim_append_solid log hsolid hblanks
  have hne : (log.dropWhile Text.isBlank ++ cs).isEmpty = false := by simp [hsolid.ne_nil]
  have hwhole : Json.readWithin? Json.maxDepth (log.dropWhile Text.isBlank ++ cs) =
      if log.all Text.isBlank then Json.readWithin? Json.maxDepth cs else none := by
    obtain ⟨hall, hrest⟩ | ⟨hall, hend, c, hc, hblank⟩ := dropWhile_log hlog
    · rw [hall, hrest, List.nil_append, if_pos rfl]
    · obtain ⟨d, ds, hcs, hd⟩ := hsolid.head
      rw [hall, if_neg Bool.false_ne_true]
      exact Json.readWithin?_append_eq_none ⟨c, hc, isBlank_of_isBlank hblank⟩ hend hlevel
        ⟨d, ds, hcs, isBlank_of_isBlank hd⟩
  have hlines : documents (log.dropWhile Text.isBlank ++ cs) = documents log ++ documents cs := by
    rw [documents_append ?_, documents_dropWhile]
    exact (dropWhile_log hlog).imp And.right fun h => h.2.1
  simp only [readOutput?, String.toList_ofList, htrim, hne, hwhole, findSome?_reverse_lines, hlines]
  cases (if log.all Text.isBlank then Json.readWithin? Json.maxDepth cs else none) <;> rfl

/-- **A result on one line is read, whatever log is before it.**  The log is empty or ends with a
line end, and blanks may follow the result. -/
theorem readOutput?_append_compact {log blanks : String} {v : Json}
    (hlog : log = "" ∨ ∃ text, log = text ++ "\n")
    (hblanks : ∀ c ∈ blanks.toList, Text.isBlank c = true)
    (hread : Json.read? v.compact = some v) :
    readOutput? (log ++ v.compact ++ blanks) = some v := by
  have hsolid : Text.Solid v.compactChars :=
    Json.chars_oneLine 0 v ▸ Json.Layout.oneLine.solid_chars 0 v
  have hlevel : Json.Level v.compactChars :=
    Json.chars_oneLine 0 v ▸ Json.Layout.oneLine.level_chars 0 v
  have hend : log.toList = [] ∨ log.toList.getLast? = some '\n' := by
    obtain rfl | ⟨text, rfl⟩ := hlog
    · exact .inl rfl
    · exact .inr (by simp)
  have hchars : Json.readWithin? Json.maxDepth v.compactChars = some v := by
    rwa [Json.read?, Json.compact, String.toList_ofList] at hread
  have hline : documents v.compactChars = [v] := by
    rw [documents_of_not_mem (Json.newline_not_mem_compactChars v), readLine?,
      Text.trim_solid hsolid, hchars]
    rfl
  have houtput : log ++ v.compact ++ blanks =
      String.ofList (log.toList ++ (v.compactChars ++ blanks.toList)) := by
    apply String.toList_injective
    simp [Json.compact]
  rw [houtput, readOutput?_append hend hsolid hlevel hblanks, hline, hchars, List.getLast?_concat]
  split <;> rfl

/-- The log holds a document, a bracket that is never closed, and a quote. -/
theorem readOutput?_append_compact_unclosed :
    Json.read? (Json.object [("b", .array [.null, .string "\n"])]).compact =
        some (.object [("b", .array [.null, .string "\n"])]) ∧
      readOutput? ("\x7b\"a\": 1\x7d\n[\"\n" ++
          (Json.object [("b", .array [.null, .string "\n"])]).compact ++ "\r\n ") =
        some (.object [("b", .array [.null, .string "\n"])]) := by
  have hread : Json.read? (Json.object [("b", .array [.null, .string "\n"])]).compact =
      some (.object [("b", .array [.null, .string "\n"])]) :=
    Json.read?_compact ⟨by decide, by decide, ⟨by decide, trivial, trivial, trivial⟩, trivial⟩
  have hblanks : ∀ c ∈ "\r\n ".toList, Text.isBlank c = true := List.all_eq_true.mp (by decide)
  exact ⟨hread, readOutput?_append_compact (.inr ⟨"\x7b\"a\": 1\x7d\n[\"", rfl⟩) hblanks hread⟩

end StateFlow.Handler
