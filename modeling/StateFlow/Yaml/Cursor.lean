/-!
# A place in a text

A cursor is the rest of a text together with the line and the column at which the rest starts.  Line
ends are normalised before reading, so a line ends with a line feed or with one of the two
separators of lines and paragraphs.
-/

namespace StateFlow.Yaml

/-- The rest of a text, and where it starts. -/
structure Cursor where
  rest : List Char
  index : Nat
  line : Nat
  column : Nat
deriving Repr, Inhabited

/-! ## Characters -/

/-- True of the characters that end a line. -/
def isBreak (c : Char) : Bool := c = '\n' || c = '\u2028' || c = '\u2029'

/-- True of the blank and the tab. -/
def isSpace (c : Char) : Bool := c = ' ' || c = '\t'

/-- True of the characters that names of anchors and of tag handles are made of. -/
def isWordChar (c : Char) : Bool :=
  ('a' ≤ c && c ≤ 'z') || ('A' ≤ c && c ≤ 'Z') || ('0' ≤ c && c ≤ '9') || c = '_' || c = '-'

/-- True of the characters that a text may hold. -/
def isPrintable (c : Char) : Bool :=
  let n := c.toNat
  n = 0x09 || n = 0x0A || n = 0x0D || (0x20 ≤ n && n ≤ 0x7E) || n = 0x85 ||
    (0xA0 ≤ n && n ≤ 0xFFFD) || 0x10000 ≤ n

/-- A text with all line ends but the two separators written as line feeds. -/
def normalizeBreaks : List Char → List Char
  | [] => []
  | '\r' :: '\n' :: cs => '\n' :: normalizeBreaks cs
  | c :: cs => (if c = '\r' ∨ c = '\u0085' then '\n' else c) :: normalizeBreaks cs

namespace Cursor

/-- The start of a text; texts that hold other than printable characters have none. -/
def ofText? (text : String) : Option Cursor :=
  let cs := text.toList
  if cs.all isPrintable then some ⟨normalizeBreaks cs, 0, 0, 0⟩ else none

/-- The next character. -/
def head? (c : Cursor) : Option Char := c.rest.head?

/-- The character a number of places ahead. -/
def ahead? (c : Cursor) (n : Nat) : Option Char := c.rest[n]?

/-- True at the end of the text. -/
def atEnd (c : Cursor) : Bool := c.rest.isEmpty

/-- Passes over the next character. -/
def next (c : Cursor) : Cursor :=
  match c.rest with
  | [] => c
  | d :: rest =>
    if isBreak d then ⟨rest, c.index + 1, c.line + 1, 0⟩
    else ⟨rest, c.index + 1, c.line, c.column + 1⟩

/-- Passes over a number of characters. -/
def skip (c : Cursor) (n : Nat) : Cursor := n.repeat next c

/-- True when the character a number of places ahead satisfies a condition. -/
def sees (c : Cursor) (n : Nat) (p : Char → Bool) : Bool :=
  match c.ahead? n with
  | some d => p d
  | none => false

/-- True when a line end or the end of the text is a number of places ahead. -/
def breaksAt (c : Cursor) (n : Nat) : Bool :=
  match c.ahead? n with
  | some d => isBreak d
  | none => true

/-- True when a space, a line end or the end of the text is a number of places ahead. -/
def separatesAt (c : Cursor) (n : Nat) : Bool := c.breaksAt n || c.sees n isSpace

/-- The characters up to the first that fails a condition, and the place of that one. -/
def takeWhile (p : Char → Bool) (c : Cursor) : List Char × Cursor :=
  let cs := c.rest.takeWhile p
  (cs, c.skip cs.length)

/-- Passes over characters up to the first that fails a condition. -/
def dropWhile (p : Char → Bool) (c : Cursor) : Cursor := (c.takeWhile p).2

/-- True at three given characters that start a line and stand alone. -/
def atLineMark (c : Cursor) (mark : Char) : Bool :=
  c.column = 0 && c.rest.take 3 = [mark, mark, mark] && c.separatesAt 3

/-- True at a mark that starts or ends a document. -/
def atDocumentMark (c : Cursor) : Bool := c.atLineMark '-' || c.atLineMark '.'

/-- Passes over a mark of byte order that starts a line; it takes a column. -/
def skipOrderMark (c : Cursor) : Cursor :=
  if c.column = 0 && c.sees 0 (· = '\uFEFF') then c.next else c

/-- Passes over a comment, if there is one, up to the end of its line. -/
def skipComment (c : Cursor) : Cursor :=
  if c.sees 0 (· = '#') then c.dropWhile fun d => !isBreak d else c

end Cursor

end StateFlow.Yaml
