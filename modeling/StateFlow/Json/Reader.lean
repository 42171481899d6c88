import StateFlow.Json.Basic
import StateFlow.Text.Hexadecimal

/-!
# Reading a document from its text

The reader is a pushdown automaton: `Reader.step` takes one character, and the stack holds the
containers that are still open.  Reading is a left fold over the characters, so a text cut in two is
read in two steps (`run_append`), and the depth of the stack says how many brackets are open.

A repeated name keeps its first place and its last value.  A text that nests deeper than the given
bound is refused.
-/

namespace StateFlow.Json

/-- A container part way through. -/
inductive Frame where
  /-- An array with the items read, last first. -/
  | array (items : List Json)
  /-- An object with the entries read and the name that is waiting for its value. -/
  | object (entries : List (String × Json)) (name : String)
deriving Inhabited, Repr

/-- What may come next, between two tokens. -/
inductive Expecting where
  | value
  /-- A value or the end of the array. -/
  | firstItem
  /-- A name or the end of the object. -/
  | firstName
  | name
  | colon
  /-- A comma or the end of the container. -/
  | separator
  /-- Nothing: the document is complete. -/
  | ending (document : Json)
deriving Inhabited, Repr

/-- Where the reader stands inside a token; characters read are kept last first. -/
inductive Lexeme where
  | between
  | word (letters : List Char)
  | number (characters : List Char)
  | text (characters : List Char)
  | escape (characters : List Char)
  /-- Inside a hexadecimal escape: digits still missing, value so far, and the first half of a
  surrogate pair if this is the second. -/
  | unicode (characters : List Char) (missing value : Nat) (high : Option Nat)
  /-- After the first half of a surrogate pair, with or without the backslash of the second. -/
  | pair (characters : List Char) (high : Nat) (backslash : Bool)
deriving Inhabited, Repr

/-- The state of the reader. -/
structure Reader where
  lexeme : Lexeme
  expecting : Expecting
  stack : List Frame
deriving Inhabited, Repr

namespace Reader

/-- Before the first character. -/
def start : Reader := ⟨.between, .value, []⟩

/-- Hands a complete value to the innermost open container. -/
def push (r : Reader) (v : Json) : Option Reader :=
  match r.expecting with
  | .value | .firstItem =>
    match r.stack with
    | [] => some ⟨.between, .ending v, []⟩
    | .array items :: rest => some ⟨.between, .separator, .array (v :: items) :: rest⟩
    | .object entries name :: rest =>
      some ⟨.between, .separator, .object (Entries.insert entries name v) name :: rest⟩
  | _ => none

/-- Takes a complete quoted string: a name where one is expected, a value otherwise. -/
def pushText (r : Reader) (s : String) : Option Reader :=
  match r.expecting, r.stack with
  | .firstName, .object entries _ :: rest | .name, .object entries _ :: rest =>
    some ⟨.between, .colon, .object entries s :: rest⟩
  | _, _ => r.push (.string s)

/-- Opens a container where a value may stand, unless that nests too deeply. -/
def openFrame (maxDepth : Nat) (r : Reader) (frame : Frame) (expecting : Expecting) :
    Option Reader :=
  match r.expecting with
  | .value | .firstItem =>
    if r.stack.length < maxDepth then some ⟨.between, expecting, frame :: r.stack⟩ else none
  | _ => none

/-- Closes the innermost array. -/
def closeArray (r : Reader) : Option Reader :=
  match r.expecting, r.stack with
  | .firstItem, .array items :: rest | .separator, .array items :: rest =>
    push ⟨.between, .value, rest⟩ (.array items.reverse)
  | _, _ => none

/-- Closes the innermost object. -/
def closeObject (r : Reader) : Option Reader :=
  match r.expecting, r.stack with
  | .firstName, .object entries _ :: rest | .separator, .object entries _ :: rest =>
    push ⟨.between, .value, rest⟩ (.object entries)
  | _, _ => none

/-- Takes a comma between two items or two entries. -/
def comma (r : Reader) : Option Reader :=
  match r.expecting, r.stack with
  | .separator, .array _ :: _ => some { r with expecting := .value }
  | .separator, .object _ _ :: _ => some { r with expecting := .name }
  | _, _ => none

/-- Takes the colon after a name. -/
def colon (r : Reader) : Option Reader :=
  match r.expecting with
  | .colon => some { r with expecting := .value }
  | _ => none

/-- Blanks between tokens. -/
def isBlank (c : Char) : Bool := c = ' ' || c = '\n' || c = '\t' || c = '\r'

/-- Characters that a number is made of. -/
def isNumberChar (c : Char) : Bool :=
  Number.isDigit c || c = '-' || c = '+' || c = '.' || c = 'e' || c = 'E'

/-- Letters that the three words are made of. -/
def isLetter (c : Char) : Bool := 'a' ≤ c && c ≤ 'z'

/-- The value of one of the three words. -/
def ofWord? (letters : List Char) : Option Json :=
  if letters = ['n', 'u', 'l', 'l'] then some .null
  else if letters = ['t', 'r', 'u', 'e'] then some (.boolean true)
  else if letters = ['f', 'a', 'l', 's', 'e'] then some (.boolean false)
  else none

/-- The character of a one-letter escape. -/
def escaped? (c : Char) : Option Char :=
  if c = '"' then some '"'
  else if c = '\\' then some '\\'
  else if c = '/' then some '/'
  else if c = 'b' then some '\x08'
  else if c = 'f' then some '\x0c'
  else if c = 'n' then some '\n'
  else if c = 'r' then some '\r'
  else if c = 't' then some '\t'
  else none

/-- Ends a hexadecimal escape: a character, the first half of a pair, or a whole pair. -/
def endUnicode (characters : List Char) (value : Nat) (high : Option Nat) : Option Lexeme :=
  let isHigh := 0xD800 ≤ value ∧ value < 0xDC00
  let isLow := 0xDC00 ≤ value ∧ value < 0xE000
  match high with
  | none =>
    if isHigh then some (.pair characters value false)
    else if isLow then none
    else some (.text (Char.ofNat value :: characters))
  | some h =>
    if isLow then
      some (.text (Char.ofNat (0x10000 + (h - 0xD800) * 0x400 + (value - 0xDC00)) :: characters))
    else none

/-- One character between tokens. -/
def stepBetween (maxDepth : Nat) (r : Reader) (c : Char) : Option Reader :=
  if isBlank c then some { r with lexeme := .between }
  else if c = '"' then some { r with lexeme := .text [] }
  else if c = '[' then r.openFrame maxDepth (.array []) .firstItem
  else if c = ']' then r.closeArray
  else if c = '\x7b' then r.openFrame maxDepth (.object [] "") .firstName
  else if c = '\x7d' then r.closeObject
  else if c = ',' then r.comma
  else if c = ':' then r.colon
  else if Number.isDigit c || c = '-' then some { r with lexeme := .number [c] }
  else if isLetter c then some { r with lexeme := .word [c] }
  else none

/-- Ends a number or a word, which nothing but the following character can end. -/
def endToken (r : Reader) : Option Reader :=
  match r.lexeme with
  | .number cs => do ({ r with lexeme := .between }).push (.number (← Number.read? cs.reverse))
  | .word cs => do ({ r with lexeme := .between }).push (← ofWord? cs.reverse)
  | .between => some r
  | _ => none

/-- One character. -/
def step (maxDepth : Nat) (r : Reader) (c : Char) : Option Reader :=
  match r.lexeme with
  | .between => r.stepBetween maxDepth c
  | .number cs =>
    if isNumberChar c then some { r with lexeme := .number (c :: cs) }
    else do (← r.endToken).stepBetween maxDepth c
  | .word cs =>
    if isLetter c then some { r with lexeme := .word (c :: cs) }
    else do (← r.endToken).stepBetween maxDepth c
  | .text cs =>
    if c = '"' then ({ r with lexeme := .between }).pushText (String.ofList cs.reverse)
    else if c = '\\' then some { r with lexeme := .escape cs }
    else if c.toNat < 0x20 then none
    else some { r with lexeme := .text (c :: cs) }
  | .escape cs =>
    if c = 'u' then some { r with lexeme := .unicode cs 4 0 none }
    else do return { r with lexeme := .text ((← escaped? c) :: cs) }
  | .unicode cs missing value high => do
    let value := value * 16 + (← Text.hexValue? c)
    if missing ≤ 1 then return { r with lexeme := ← endUnicode cs value high }
    else return { r with lexeme := .unicode cs (missing - 1) value high }
  | .pair cs high false => if c = '\\' then some { r with lexeme := .pair cs high true } else none
  | .pair cs high true =>
    if c = 'u' then some { r with lexeme := .unicode cs 4 0 (some high) } else none

/-- A run of characters. -/
def run (maxDepth : Nat) (r : Reader) (cs : List Char) : Option Reader :=
  cs.foldlM (step maxDepth) r

theorem run_append (maxDepth : Nat) (r : Reader) (cs ds : List Char) :
    run maxDepth r (cs ++ ds) = (run maxDepth r cs).bind (run maxDepth · ds) := by
  simp [run, List.foldlM_append]

/-- The document, once nothing is open. -/
def finish (r : Reader) : Option Json := do
  match (← r.endToken).expecting with
  | .ending v => some v
  | _ => none

end Reader

/-- The greatest depth of a text that is read. -/
def maxDepth : Nat := 127

/-- Reads a document that nests at most `depth` deep. -/
def readWithin? (depth : Nat) (text : List Char) : Option Json :=
  (Reader.run depth Reader.start text).bind Reader.finish

/-- Reads a document from its text. -/
def read? (text : String) : Option Json := readWithin? maxDepth text.toList

end StateFlow.Json
