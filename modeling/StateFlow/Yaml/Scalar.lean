import StateFlow.Text.Hexadecimal
import StateFlow.Yaml.Cursor

/-!
# The texts of scalars

A scalar is written plainly, between quotes, or as a block of lines.  Line ends inside a plain or a
quoted scalar are folded: one becomes a blank, and of several all but the first are kept.  A block
keeps its lines, or folds those that are not indented further.
-/

namespace StateFlow.Yaml

/-- Blanks between two pieces of a scalar: spaces up to the first line end, and the line ends. -/
structure Gap where
  spaces : List Char
  breaks : List Char
deriving Repr, Inhabited

namespace Gap

/-- No blanks. -/
def none : Gap := ⟨[], []⟩

/-- Line ends between two pieces, folded. -/
def foldBreaks : List Char → List Char
  | [] => []
  | '\n' :: [] => [' ']
  | '\n' :: more => more
  | breaks => breaks

/-- What stands between two pieces of a scalar that are separated by blanks. -/
def text (g : Gap) : List Char := if g.breaks = [] then g.spaces else foldBreaks g.breaks

end Gap

/-- The blanks at a place.  After a line end, a tab before the given column is refused. -/
def readGap? (tabsFrom : Int) : (fuel : Nat) → Gap → Cursor → Option (Gap × Cursor)
  | 0, gap, c => some (gap, c)
  | fuel + 1, gap, c =>
    match c.head? with
    | some d =>
      if isSpace d then
        if gap.breaks = [] then
          readGap? tabsFrom fuel { gap with spaces := gap.spaces ++ [d] } c.next
        else if d = '\t' ∧ (c.column : Int) < tabsFrom then none
        else readGap? tabsFrom fuel gap c.next
      else if isBreak d then readGap? tabsFrom fuel { gap with breaks := gap.breaks ++ [d] } c.next
      else some (gap, c)
    | none => some (gap, c)

/-! ## Plain scalars -/

/-- True of the characters that end a plain scalar between brackets. -/
def isFlowMark (c : Char) : Bool := c = ',' || c = '[' || c = ']' || c = '{' || c = '}'

/-- A run of a plain scalar without blanks. -/
def readPlainRun? (flow : Bool) : (fuel : Nat) → List Char → Cursor → Option (List Char × Cursor)
  | 0, run, c => some (run, c)
  | fuel + 1, run, c =>
    if c.separatesAt 0 then some (run, c)
    else if flow && c.sees 0 (· = ':') && c.sees 1 (fun d => isFlowMark d || d = '?') then none
    else if c.sees 0 (· = ':') && c.separatesAt 1 then some (run, c)
    else if flow && c.sees 0 isFlowMark then some (run, c)
    else readPlainRun? flow fuel (c.rest.head?.getD ' ' :: run) c.next

/-- A plain scalar that has been read: its text, whether it ended after a line end, and the place
after it. -/
structure PlainScalar where
  text : List Char
  brokeLine : Bool
  after : Cursor
deriving Repr, Inhabited

/-- Reads a plain scalar.  Outside brackets its lines must be indented to a column; `read` holds
what has been read, last first, and `gap` the blanks after it. -/
def readPlain? (flow : Bool) (column : Int) :
    (fuel : Nat) → (read : List Char) → Gap → Cursor → Option PlainScalar
  | 0, read, gap, c => some ⟨read.reverse, gap.breaks ≠ [], c⟩
  | fuel + 1, read, gap, c => do
    if c.atDocumentMark || c.sees 0 (· = '#') then
      return ⟨read.reverse, gap.breaks ≠ [], c⟩
    let (run, after) ← readPlainRun? flow (c.rest.length + 1) [] c
    let (read, gap) :=
      if run = [] then (read, gap) else (run ++ gap.text.reverse ++ read, Gap.none)
    if after.atEnd || !after.separatesAt 0 then return ⟨read.reverse, gap.breaks ≠ [], after⟩
    let (gap, after) ← readGap? column (after.rest.length + 1) gap after
    if !flow && (after.column : Int) < column then return ⟨read.reverse, gap.breaks ≠ [], after⟩
    readPlain? flow column fuel read gap after

/-! ## Quoted scalars -/

/-- The character of a code in hexadecimal digits. -/
def ofHex? (digits : List Char) : Option Char := do
  let n ← digits.foldlM (fun n c => do return n * 16 + (← Text.hexValue? c)) 0
  if n ≤ 0x10FFFF ∧ ¬ (0xD800 ≤ n ∧ n ≤ 0xDFFF) then some (Char.ofNat n) else none

/-- The number of hexadecimal digits after an escape letter that takes some. -/
def codeLength? (c : Char) : Option Nat :=
  if c = 'x' then some 2 else if c = 'u' then some 4 else if c = 'U' then some 8 else none

/-- The character of an escape letter that takes no digits. -/
def escaped? (c : Char) : Option Char :=
  match c with
  | '0' => some '\x00'
  | 'a' => some '\x07'
  | 'b' => some '\x08'
  | 't' | '\t' => some '\t'
  | 'n' => some '\n'
  | 'v' => some '\x0b'
  | 'f' => some '\x0c'
  | 'r' => some '\r'
  | 'e' => some '\x1b'
  | ' ' => some ' '
  | '"' => some '"'
  | '/' => some '/'
  | '\\' => some '\\'
  | 'N' => some '\u0085'
  | '_' => some '\u00a0'
  | 'L' => some '\u2028'
  | 'P' => some '\u2029'
  | _ => none

/-- The character of the escape at a backslash, and the place after it. -/
def readEscape? (c : Cursor) : Option (Char × Cursor) := do
  let letter ← c.ahead? 1
  match codeLength? letter with
  | some n =>
    let digits := (c.rest.drop 2).take n
    if digits.length = n then return (← ofHex? digits, c.skip (n + 2)) else none
  | none => return (← escaped? letter, c.skip 2)

/-- Reads a quoted scalar after its opening quote; `read` holds what has been read, last first. -/
def readQuoted? (quote : Char) : (fuel : Nat) → (read : List Char) → Cursor →
    Option (List Char × Cursor)
  | 0, _, _ => none
  | fuel + 1, read, c => do
    if c.atDocumentMark then none
    let d ← c.head?
    if d = quote then
      if quote = '\'' ∧ c.sees 1 (· = '\'') then readQuoted? quote fuel ('\'' :: read) (c.skip 2)
      else return (read.reverse, c.next)
    else if quote = '"' ∧ d = '\\' then
      -- the line goes on as if it had not ended
      if c.sees 1 isBreak then
        let (gap, after) ← readGap? 0 c.rest.length ⟨[], ['\n']⟩ (c.skip 2)
        readQuoted? quote fuel (gap.breaks.drop 1 |>.reverse |> (· ++ read)) after
      else
        let (e, after) ← readEscape? c
        readQuoted? quote fuel (e :: read) after
    else if isSpace d ∨ isBreak d then
      let (gap, after) ← readGap? 0 (c.rest.length + 1) Gap.none c
      readQuoted? quote fuel (gap.text.reverse ++ read) after
    else readQuoted? quote fuel (d :: read) c.next

/-! ## Blocks of lines -/

/-- What becomes of the line ends after the last line of a block. -/
inductive Chomping where
  | strip
  | clip
  | keep
deriving DecidableEq, Repr, Inhabited

/-- The header of a block: chomping, and how much further than its surroundings it is indented. -/
structure BlockHeader where
  chomping : Chomping
  increment? : Option Nat
deriving Repr, Inhabited

/-- A chomping indicator, if there is one. -/
def readChomping (c : Cursor) : Option Chomping × Cursor :=
  match c.head? with
  | some '+' => (some .keep, c.next)
  | some '-' => (some .strip, c.next)
  | _ => (none, c)

/-- An indentation indicator, if there is one; a zero is refused. -/
def readIncrement? (c : Cursor) : Option (Option Nat × Cursor) :=
  match c.head? with
  | some d =>
    if d = '0' then none
    else if '1' ≤ d ∧ d ≤ '9' then some (some (d.toNat - '0'.toNat), c.next)
    else some (none, c)
  | none => some (none, c)

/-- The header after the mark of a block, to the end of its line. -/
def readBlockHeader? (c : Cursor) : Option (BlockHeader × Cursor) := do
  let (early?, c) := readChomping c
  let (increment?, c) ← readIncrement? c
  let (late?, c) := if early?.isNone ∧ increment?.isSome then readChomping c else (none, c)
  let c := (c.dropWhile isSpace).skipComment
  if c.breaksAt 0 then
    return (⟨(early? <|> late?).getD .clip, increment?⟩, c.next)
  else none

/-- Line ends before a line of a block, and the place where that line starts.  Without a known
column the greatest column reached comes with them. -/
def readBlockBreaks? (column? : Option Nat) :
    (fuel : Nat) → (greatest : Nat) → (breaks : List Char) → Cursor →
    Option (Nat × List Char × Cursor)
  | 0, greatest, breaks, c => some (greatest, breaks.reverse, c)
  | fuel + 1, greatest, breaks, c =>
    let inside := fun (d : Cursor) => match column? with
      | some column => decide (d.column < column)
      | none => true
    let blanks := (c.rest.takeWhile (· = ' ')).length
    let c := c.skip (match column? with
      | some column => min blanks (column - c.column)
      | none => blanks)
    let greatest := max greatest c.column
    if inside c && c.sees 0 (· = '\t') then none
    else match c.head? with
      | some d =>
        if isBreak d then readBlockBreaks? column? fuel greatest (d :: breaks) c.next
        else some (greatest, breaks.reverse, c)
      | none => some (greatest, breaks.reverse, c)

/-- A block part way through: the text, last character first, the end of the last line, the empty
lines after it, and whether the last line was indented further. -/
structure BlockText where
  read : List Char
  lineEnd : List Char
  empties : List Char
  further : Bool
deriving Repr, Inhabited

/-- The text of a block before its next line. -/
def BlockText.join (b : BlockText) (literal further : Bool) : List Char :=
  if !literal && b.lineEnd.head? = some '\n' && !b.further && !further then
    (if b.empties = [] then [' '] else b.empties.reverse) ++ b.read
  else b.empties.reverse ++ b.lineEnd ++ b.read

/-- The lines of a block that are indented to a column. -/
def readBlockLines? (literal : Bool) (column : Nat) :
    (fuel : Nat) → BlockText → Cursor → Option (BlockText × Cursor)
  | 0, b, c => some (b, c)
  | fuel + 1, b, c => do
    if c.column = column ∧ !c.atEnd then
      let further := c.sees 0 isSpace
      let before := b.join literal further
      let (line, c) := c.takeWhile fun d => !isBreak d
      let lineEnd := c.head?.toList
      let (_, empties, c) ← readBlockBreaks? (some column) (c.rest.length + 1) 0 [] c.next
      readBlockLines? literal column fuel ⟨line.reverse ++ before, lineEnd, empties, further⟩ c
    else return (b, c)

/-- Reads a block after its mark, inside a collection that is indented to a column or to none. -/
def readBlock? (literal : Bool) (indent : Int) (c : Cursor) : Option (List Char × Cursor) := do
  let (header, c) ← readBlockHeader? c
  let fixed? := header.increment?.map fun n => if 0 ≤ indent then indent.toNat + n else n
  let fuel := c.rest.length + 1
  let (greatest, empties, c) ← readBlockBreaks? fixed? fuel 0 [] c
  -- without an indicator the first line that is not empty gives the column
  let column := fixed?.getD (max (max greatest (indent + 1).toNat) 1)
  let (b, c) ← readBlockLines? literal column fuel ⟨[], [], empties, false⟩ c
  let tail := match header.chomping with
    | .strip => []
    | .clip => b.lineEnd
    | .keep => b.lineEnd ++ b.empties
  return (b.read.reverse ++ tail, c)

end StateFlow.Yaml
