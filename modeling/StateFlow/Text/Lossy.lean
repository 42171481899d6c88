/-!
# Texts of bytes

Bytes are read as a text in UTF-8.  Where they are none, the longest run of bytes that could have
begun a character, or else one byte, is replaced by one replacement character.
-/

namespace StateFlow.Text

/-- The bytes of a text. -/
def bytes (text : String) : List UInt8 := text.toUTF8.toList

/-- What stands for bytes that are no character. -/
def replacement : Char := '\uFFFD'

/-- The length of a character that starts with a byte, and the bounds of its second byte. -/
def leadOf? (b : UInt8) : Option (Nat × UInt8 × UInt8) :=
  if b < 0x80 then some (1, 0, 0)
  else if 0xC2 ≤ b ∧ b ≤ 0xDF then some (2, 0x80, 0xBF)
  else if b = 0xE0 then some (3, 0xA0, 0xBF)
  else if b = 0xED then some (3, 0x80, 0x9F)
  else if 0xE1 ≤ b ∧ b ≤ 0xEF then some (3, 0x80, 0xBF)
  else if b = 0xF0 then some (4, 0x90, 0xBF)
  else if b = 0xF4 then some (4, 0x80, 0x8F)
  else if 0xF1 ≤ b ∧ b ≤ 0xF3 then some (4, 0x80, 0xBF)
  else none

/-- The bytes after the first that belong to a character of a length. -/
def continuation (length : Nat) (least greatest : UInt8) : List UInt8 → List UInt8
  | b :: rest =>
    if 1 < length ∧ least ≤ b ∧ b ≤ greatest then
      b :: (rest.take (length - 2)).takeWhile fun c => 0x80 ≤ c && c ≤ 0xBF
    else []
  | [] => []

/-- The code of a character of several bytes. -/
def codeOf (length : Nat) (lead : UInt8) (rest : List UInt8) : Nat :=
  rest.foldl (fun n b => n * 64 + b.toNat % 64) (lead.toNat % (1 <<< (7 - length)))

/-- The characters of bytes. -/
def decodeChars : (fuel : Nat) → List UInt8 → List Char
  | fuel + 1, b :: rest =>
    match leadOf? b with
    | none => replacement :: decodeChars fuel rest
    | some (length, least, greatest) =>
      let more := continuation length least greatest rest
      let c := if length = 1 then Char.ofNat b.toNat
        else if more.length + 1 = length then Char.ofNat (codeOf length b more) else replacement
      c :: decodeChars fuel (rest.drop more.length)
  | _, _ => []

/-- The text of bytes. -/
def decode (bytes : List UInt8) : String := String.ofList (decodeChars bytes.length bytes)

end StateFlow.Text
