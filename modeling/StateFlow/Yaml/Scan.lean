import StateFlow.Yaml.Scalar
import StateFlow.Yaml.Token

/-!
# The tokens of a text

`Scanner.step?` reads one token, or the marks that indentation stands for.  A scalar becomes a key
only when a colon follows it on its line, so the scanner remembers where a key may have begun, and
puts the token of the key, and the start of a mapping, in at that place afterwards.

Between brackets indentation has no meaning.  Elsewhere a key must be on one line, of no more than
1024 characters, and what stands at the column of its collection must be one.
-/

namespace StateFlow.Yaml

/-- A place where a key may have begun. -/
structure KeyPlace where
  /-- What stands there must turn out to be a key. -/
  required : Bool
  /-- The number of tokens before it. -/
  place : Nat
  index : Nat
  line : Nat
  column : Nat
deriving Repr, Inhabited

/-- A scanner part way through a text. -/
structure Scanner where
  cursor : Cursor
  /-- The tokens read, last first. -/
  tokens : List Token
  /-- The column of the innermost collection written by indentation, -1 for none. -/
  indent : Int
  /-- The columns of the collections around it, innermost first. -/
  outer : List Int
  /-- Where a key may have begun, outside brackets. -/
  blockKey? : Option KeyPlace
  /-- The same for each open bracket, innermost first. -/
  flowKeys : List (Option KeyPlace)
  /-- A key may begin here. -/
  keyAllowed : Bool
deriving Repr, Inhabited

namespace Scanner

/-- A scanner before a text. -/
def start (c : Cursor) : Scanner := ⟨c, [], -1, [], none, [], true⟩

/-- True between brackets. -/
def inFlow (s : Scanner) : Bool := !s.flowKeys.isEmpty

/-- The scanner after a token. -/
def push (s : Scanner) (t : Token) : Scanner := { s with tokens := t :: s.tokens }

/-- The scanner after a token that takes a number of characters. -/
def pushOver (s : Scanner) (t : Token) (count : Nat) : Scanner :=
  { s with tokens := t :: s.tokens, cursor := s.cursor.skip count }

/-! ## Keys -/

/-- The place where the innermost key may have begun. -/
def keyPlace? (s : Scanner) : Option KeyPlace :=
  match s.flowKeys with
  | [] => s.blockKey?
  | key? :: _ => key?

/-- The scanner with another such place. -/
def setKeyPlace (s : Scanner) (key? : Option KeyPlace) : Scanner :=
  match s.flowKeys with
  | [] => { s with blockKey? := key? }
  | _ :: keys => { s with flowKeys := key? :: keys }

/-- Gives up the innermost place where a key may have begun, unless a key was required there. -/
def dropKey? (s : Scanner) : Option Scanner :=
  match s.keyPlace? with
  | some key => if key.required then none else some (s.setKeyPlace none)
  | none => some s

/-- Remembers that a key may begin here. -/
def saveKey? (s : Scanner) : Option Scanner :=
  if s.keyAllowed then do
    let c := s.cursor
    let required := !s.inFlow && s.indent == (c.column : Int)
    let s ← s.dropKey?
    return s.setKeyPlace (some ⟨required, s.tokens.length, c.index, c.line, c.column⟩)
  else some s

/-- The greatest length of a key. -/
def greatestKeyLength : Nat := 1024

/-- True of a place that is too far back for its key to end here. -/
def isStale (c : Cursor) (key : KeyPlace) : Bool :=
  key.line < c.line || key.index + greatestKeyLength < c.index

/-- Gives up a place that is too far back. -/
def freshKey? (c : Cursor) : Option KeyPlace → Option (Option KeyPlace)
  | none => some none
  | some key =>
    if !isStale c key then some (some key) else if key.required then none else some none

/-- Gives up all places that are too far back. -/
def dropStaleKeys? (s : Scanner) : Option Scanner := do
  let blockKey? ← freshKey? s.cursor s.blockKey?
  let flowKeys ← s.flowKeys.mapM (freshKey? s.cursor)
  return { s with blockKey?, flowKeys }

/-! ## Indentation -/

/-- A list of tokens, last first, with one put in after the first `place`. -/
def insertAt (tokens : List Token) (place : Nat) (t : Token) : List Token :=
  let after := tokens.length - place
  tokens.take after ++ t :: tokens.drop after

/-- Opens a collection at a column that is further in, before the token at a place. -/
def indentTo (s : Scanner) (column place : Nat) (t : Token) : Scanner :=
  if !s.inFlow && s.indent < (column : Int) then
    { s with
      tokens := insertAt s.tokens place t
      indent := column
      outer := s.indent :: s.outer }
  else s

/-- Opens a collection at this column, if that is further in. -/
def indentHere (s : Scanner) (t : Token) : Scanner :=
  s.indentTo s.cursor.column s.tokens.length t

/-- Closes the collections that are further in than a column. -/
def dedentTo (column : Int) : (outer : List Int) → Scanner → Scanner
  | [], s => s
  | next :: outer, s =>
    if column < s.indent then
      dedentTo column outer { s with tokens := .blockEnd :: s.tokens, indent := next, outer }
    else s

/-- Closes the collections that are further in than a column, outside brackets. -/
def dedent (s : Scanner) (column : Int) : Scanner :=
  if s.inFlow then s else dedentTo column s.outer s

/-! ## Between tokens -/

/-- Passes over blanks, comments and line ends up to the next token.  Outside brackets a key may
begin after a line end, and a tab may not stand where a key may begin. -/
def skipBlanks : (fuel : Nat) → Scanner → Scanner
  | 0, s => s
  | fuel + 1, s =>
    let isBlank := fun d : Char => d = ' ' || ((s.inFlow || !s.keyAllowed) && d = '\t')
    let c := s.cursor.skipOrderMark.dropWhile isBlank
    let c := c.skipComment
    if c.sees 0 isBreak then
      skipBlanks fuel { s with cursor := c.next, keyAllowed := s.keyAllowed || !s.inFlow }
    else { s with cursor := c }

/-! ## Directives, anchors and tags -/

/-- A number of at most nine digits. -/
def readNumber? (c : Cursor) : Option (Nat × Cursor) :=
  let (digits, after) := c.takeWhile Char.isDigit
  if digits.isEmpty ∨ 9 < digits.length then none
  else some (digits.foldl (fun n d => n * 10 + (d.toNat - '0'.toNat)) 0, after)

/-- True of the characters of tag names. -/
def isTagChar (c : Char) : Bool :=
  isWordChar c || c = ';' || c = '/' || c = '?' || c = ':' || c = '@' || c = '&' || c = '=' ||
    c = '+' || c = '$' || c = '.' || c = '!' || c = '~' || c = '*' || c = '\'' || c = '(' || c = ')'

/-- True of the characters of tag names that stand between angle brackets. -/
def isFullTagChar (c : Char) : Bool := isTagChar c || c = ',' || c = '[' || c = ']'

/-- The bytes that percent signs stand for at the start of a text. -/
def readCodedBytes : (fuel : Nat) → List Char → List UInt8
  | fuel + 1, '%' :: a :: b :: cs =>
    match Text.hexValue? a, Text.hexValue? b with
    | some x, some y => UInt8.ofNat (x * 16 + y) :: readCodedBytes fuel cs
    | _, _ => []
  | _, _ => []

/-- A run of characters of a tag name, in which percent signs stand for bytes. -/
def readTagText? (full : Bool) : (fuel : Nat) → (read : List Char) → Cursor →
    Option (List Char × Cursor)
  | 0, read, c => some (read.reverse, c)
  | fuel + 1, read, c =>
    match c.head? with
    | some '%' =>
      let bytes := readCodedBytes c.rest.length c.rest
      if bytes.isEmpty then none
      else do
        let text ← String.fromUTF8? ⟨bytes.toArray⟩
        readTagText? full fuel (text.toList.reverse ++ read) (c.skip (3 * bytes.length))
    | some d =>
      if (if full then isFullTagChar d else isTagChar d) then
        readTagText? full fuel (d :: read) c.next
      else some (read.reverse, c)
    | none => some (read.reverse, c)

/-- A tag handle: an exclamation mark, and a name and another mark where that follows. -/
def readHandle? (c : Cursor) : Option (List Char × Cursor) :=
  if c.sees 0 (· = '!') then
    let (name, after) := c.next.takeWhile isWordChar
    if after.sees 0 (· = '!') then some ('!' :: name ++ ['!'], after.next)
    else some ('!' :: name, after)
  else none

/-- Passes over spaces, of which there must be some. -/
def skipSpaces? (c : Cursor) : Option Cursor :=
  if c.sees 0 isSpace then some (c.dropWhile isSpace) else none

/-- A directive at a percent sign, to the end of its line. -/
def readDirective? (c : Cursor) : Option (Token × Cursor) := do
  let (name, c) := c.next.takeWhile isWordChar
  let (token, c) ←
    if name = "YAML".toList then do
      let (major, c) ← readNumber? (c.dropWhile isSpace)
      if c.sees 0 (· = '.') then
        let (minor, c) ← readNumber? c.next
        some (Token.version major minor, c)
      else none
    else if name = "TAG".toList then do
      let (handle, c) ← readHandle? (c.dropWhile isSpace)
      if handle.length = 1 ∨ handle.getLast? = some '!' then
        let c ← skipSpaces? c
        let (meaning, c) ← readTagText? true (c.rest.length + 1) [] c
        if meaning.isEmpty ∨ !c.separatesAt 0 then none
        else some (Token.tagHandle (String.ofList handle) (String.ofList meaning), c)
      else none
    else none
  let c := (c.dropWhile isSpace).skipComment
  if c.breaksAt 0 then return (token, c.next) else none

/-- The name of an anchor or of an alias, after its mark. -/
def readName? (c : Cursor) : Option (String × Cursor) :=
  let (name, after) := c.takeWhile isWordChar
  let ends := after.separatesAt 0 || after.sees 0 fun d =>
    d = '?' || d = ':' || d = ',' || d = ']' || d = '}' || d = '%' || d = '@' || d.toNat = 0x60
  if name.isEmpty || !ends then none else some (String.ofList name, after)

/-- The tag at an exclamation mark. -/
def readTag? (flow : Bool) (c : Cursor) : Option (Token × Cursor) := do
  let (token, after) ←
    if c.sees 1 (· = '<') then do
      let (text, after) ← readTagText? true (c.rest.length + 1) [] (c.skip 2)
      if !text.isEmpty && after.sees 0 (· = '>') then
        some (Token.tag "" (String.ofList text), after.next)
      else none
    else do
      let (handle, after) ← readHandle? c
      if 2 ≤ handle.length ∧ handle.getLast? = some '!' then
        let (suffix, after) ← readTagText? false (c.rest.length + 1) [] after
        if suffix.isEmpty then none
        else some (Token.tag (String.ofList handle) (String.ofList suffix), after)
      else
        let (more, after) ← readTagText? false (c.rest.length + 1) [] after
        let suffix := handle.drop 1 ++ more
        if suffix.isEmpty then some (Token.tag "" "!", after)
        else some (Token.tag "!" (String.ofList suffix), after)
  if after.separatesAt 0 || (flow && after.sees 0 (· = ',')) then return (token, after) else none

/-! ## Tokens -/

/-- A token that ends all collections written by indentation. -/
def atMargin? (s : Scanner) (t : Token) (after : Cursor) : Option Scanner := do
  let s ← (s.dedent (-1)).dropKey?
  return { s with tokens := t :: s.tokens, cursor := after, keyAllowed := false }

/-- An opening bracket. -/
def openFlow? (s : Scanner) (t : Token) : Option Scanner := do
  let s ← s.saveKey?
  return { s.pushOver t 1 with flowKeys := none :: s.flowKeys, keyAllowed := true }

/-- A closing bracket. -/
def closeFlow? (s : Scanner) (t : Token) : Option Scanner := do
  let s ← s.dropKey?
  return { s.pushOver t 1 with flowKeys := s.flowKeys.drop 1, keyAllowed := false }

/-- A comma. -/
def flowEntry? (s : Scanner) : Option Scanner := do
  let s ← s.dropKey?
  return { s.pushOver .flowEntry 1 with keyAllowed := true }

/-- The dash before an entry. -/
def blockEntry? (s : Scanner) : Option Scanner := do
  let s ← if s.inFlow then some s
    else if s.keyAllowed then some (s.indentHere .blockSequenceStart) else none
  let s ← s.dropKey?
  return { s.pushOver .blockEntry 1 with keyAllowed := true }

/-- The mark before a key of any kind. -/
def explicitKey? (s : Scanner) : Option Scanner := do
  let s ← if s.inFlow then some s
    else if s.keyAllowed then some (s.indentHere .blockMappingStart) else none
  let s ← s.dropKey?
  return { s.pushOver .key 1 with keyAllowed := !s.inFlow }

/-- The colon before a value; what stands before it may turn out to be a key. -/
def value? (s : Scanner) : Option Scanner := do
  match s.keyPlace? with
  | some key =>
    -- only now it is known that a key, and perhaps a mapping, began there
    let s := { s with tokens := insertAt s.tokens key.place .key }
    let s := (s.indentTo key.column key.place .blockMappingStart).setKeyPlace none
    return { s.pushOver .value 1 with keyAllowed := false }
  | none =>
    let s ← if s.inFlow then some s
      else if s.keyAllowed then some (s.indentHere .blockMappingStart) else none
    return { s.pushOver .value 1 with keyAllowed := !s.inFlow }

/-- A token that may begin a key. -/
def keyStart? (s : Scanner) (read : Cursor → Option (Token × Cursor)) : Option Scanner := do
  let s ← s.saveKey?
  let (t, cursor) ← read s.cursor
  return { s.push t with cursor, keyAllowed := false }

/-- A block of lines. -/
def block? (s : Scanner) (literal : Bool) : Option Scanner := do
  let s ← s.dropKey?
  let (text, cursor) ← readBlock? literal s.indent s.cursor.next
  return { s.push (.scalar (String.ofList text) false) with cursor, keyAllowed := true }

/-- A quoted scalar. -/
def quoted? (s : Scanner) (quote : Char) : Option Scanner :=
  s.keyStart? fun c => do
    let (text, after) ← readQuoted? quote (c.rest.length + 1) [] c.next
    return (.scalar (String.ofList text) false, after)

/-- A plain scalar. -/
def plain? (s : Scanner) : Option Scanner := do
  let s ← s.saveKey?
  let scalar ←
    readPlain? s.inFlow (s.indent + 1) (s.cursor.rest.length + 1) [] Gap.none s.cursor
  return { s.push (.scalar (String.ofList scalar.text) true) with
    cursor := scalar.after, keyAllowed := scalar.brokeLine }

/-- True of the characters that never start a plain scalar. -/
def isIndicator (c : Char) : Bool :=
  isFlowMark c || c = '#' || c = '&' || c = '*' || c = '!' || c = '|' || c = '>' || c = '\'' ||
    c = '"' || c = '%' || c = '@' || c.toNat = 0x60

/-- True where a plain scalar starts. -/
def startsPlain (s : Scanner) (d : Char) : Bool :=
  let c := s.cursor
  if d = '-' then !c.sees 1 isSpace
  else if d = '?' || d = ':' then !s.inFlow && !c.separatesAt 1
  else !isSpace d && !isIndicator d

/-- Reads the token at a character. -/
def tokenAt? (s : Scanner) (d : Char) : Option Scanner :=
  let c := s.cursor
  if c.column = 0 && d = '%' then do
    let (t, after) ← readDirective? c
    s.atMargin? t after
  else if c.atLineMark '-' then s.atMargin? .documentStart (c.skip 3)
  else if c.atLineMark '.' then s.atMargin? .documentEnd (c.skip 3)
  else if d = '[' then s.openFlow? .flowSequenceStart
  else if d = '{' then s.openFlow? .flowMappingStart
  else if d = ']' then s.closeFlow? .flowSequenceEnd
  else if d = '}' then s.closeFlow? .flowMappingEnd
  else if d = ',' then s.flowEntry?
  else if d = '-' && c.separatesAt 1 then s.blockEntry?
  else if d = '?' && (s.inFlow || c.separatesAt 1) then s.explicitKey?
  else if d = ':' && (s.inFlow || c.separatesAt 1) then s.value?
  else if d = '*' then s.keyStart? fun c => do
    let (name, after) ← readName? c.next
    return (.alias name, after)
  else if d = '&' then s.keyStart? fun c => do
    let (name, after) ← readName? c.next
    return (.anchor name, after)
  else if d = '!' then s.keyStart? (readTag? s.inFlow)
  else if d = '|' && !s.inFlow then s.block? true
  else if d = '>' && !s.inFlow then s.block? false
  else if d = '\'' || d = '"' then s.quoted? d
  else if s.startsPlain d then s.plain?
  else none

/-- Reads the next token; the flag says that it was the last. -/
def step? (s : Scanner) : Option (Scanner × Bool) := do
  let s := s.skipBlanks (s.cursor.rest.length + 1)
  let s ← s.dropStaleKeys?
  let s := s.dedent s.cursor.column
  match s.cursor.head? with
  | some d => return (← s.tokenAt? d, false)
  | none =>
    let s ← (s.dedent (-1)).dropKey?
    return (s.push .streamEnd, true)

/-- Reads tokens up to the end of the text. -/
def run? : (fuel : Nat) → Scanner → Option Scanner
  | 0, _ => none
  | fuel + 1, s => do
    let (s, done) ← s.step?
    if done then return s else run? fuel s

end Scanner

/-- The tokens of a text; none when some part of it is no token. -/
def tokens? (text : String) : Option (List Token) := do
  let c ← Cursor.ofText? text
  let s ← (Scanner.start c).run? (c.rest.length + 2)
  return s.tokens.reverse

end StateFlow.Yaml
