import StateFlow.Json.Basic

/-!
# The text of a document

`Json.compact` writes a document on one line without blanks, `Json.indented` one entry a line with
two more spaces at each depth.  Both keep entries in their order and escape the same characters: the
quote, the backslash and the control characters.
-/

namespace StateFlow.Json

/-- A hexadecimal digit in lower case. -/
def hexDigit (n : Nat) : Char := "0123456789abcdef".toList.getD n '0'

/-- A character as it stands inside a quoted string. -/
def escapeChar (c : Char) : List Char :=
  if c = '"' then ['\\', '"']
  else if c = '\\' then ['\\', '\\']
  else if c = '\n' then ['\\', 'n']
  else if c = '\r' then ['\\', 'r']
  else if c = '\t' then ['\\', 't']
  else if c = '\x08' then ['\\', 'b']
  else if c = '\x0c' then ['\\', 'f']
  else if c.toNat < 0x20 then
    ['\\', 'u', '0', '0', hexDigit (c.toNat / 16), hexDigit (c.toNat % 16)]
  else [c]

/-- A string between quotes. -/
def quoted (s : String) : List Char := '"' :: (s.toList.flatMap escapeChar ++ ['"'])

mutual

/-- The characters of the one-line text. -/
def compactChars : Json → List Char
  | null => ['n', 'u', 'l', 'l']
  | boolean true => ['t', 'r', 'u', 'e']
  | boolean false => ['f', 'a', 'l', 's', 'e']
  | number n => n.chars
  | string s => quoted s
  | array xs => '[' :: (compactItems xs ++ [']'])
  | object es => '\x7b' :: (compactEntries es ++ ['\x7d'])

/-- Items, separated by commas. -/
def compactItems : List Json → List Char
  | [] => []
  | [x] => compactChars x
  | x :: y :: xs => compactChars x ++ ',' :: compactItems (y :: xs)

/-- Entries, separated by commas. -/
def compactEntries : List (String × Json) → List Char
  | [] => []
  | [(k, v)] => quoted k ++ ':' :: compactChars v
  | (k, v) :: e :: es => quoted k ++ ':' :: (compactChars v ++ ',' :: compactEntries (e :: es))

end

/-- The one-line text. -/
def compact (document : Json) : String := String.ofList document.compactChars

/-- A new line, indented. -/
def newline (depth : Nat) : List Char := '\n' :: List.replicate (2 * depth) ' '

mutual

/-- The characters of the indented text, for a document that starts at a depth. -/
def indentedChars (depth : Nat) : Json → List Char
  | array [] => ['[', ']']
  | array (x :: xs) => '[' :: (indentedItems (depth + 1) (x :: xs) ++ newline depth ++ [']'])
  | object [] => ['\x7b', '\x7d']
  | object (e :: es) =>
    '\x7b' :: (indentedEntries (depth + 1) (e :: es) ++ newline depth ++ ['\x7d'])
  | null => ['n', 'u', 'l', 'l']
  | boolean true => ['t', 'r', 'u', 'e']
  | boolean false => ['f', 'a', 'l', 's', 'e']
  | number n => n.chars
  | string s => quoted s

/-- Items, one a line. -/
def indentedItems (depth : Nat) : List Json → List Char
  | [] => []
  | [x] => newline depth ++ indentedChars depth x
  | x :: y :: xs => newline depth ++ indentedChars depth x ++ ',' :: indentedItems depth (y :: xs)

/-- Entries, one a line. -/
def indentedEntries (depth : Nat) : List (String × Json) → List Char
  | [] => []
  | [(k, v)] => newline depth ++ quoted k ++ ':' :: ' ' :: indentedChars depth v
  | (k, v) :: e :: es =>
    newline depth ++ quoted k ++ ':' :: ' ' :: (indentedChars depth v ++
      ',' :: indentedEntries depth (e :: es))

end

/-- The indented text. -/
def indented (document : Json) : String := String.ofList (document.indentedChars 0)

end StateFlow.Json
