import StateFlow.Number.Basic
import StateFlow.Text.Lossy

/-!
# Texts that utilities write

Backslashes in texts stand for characters, and a format says how arguments are laid out.  A format
is used again until no argument is left.
-/

namespace StateFlow.Shell

/-- A text with what it stands for, and whether it ends all output. -/
structure Written where
  bytes : List UInt8
  stops : Bool
deriving Repr, Inhabited

namespace Written

/-- Nothing. -/
def empty : Written := ⟨[], false⟩

/-- What is written first and what is written then. -/
def append (w v : Written) : Written := if w.stops then w else ⟨w.bytes ++ v.bytes, v.stops⟩

end Written

/-- The byte of a letter after a backslash. -/
def escapedByte? (c : Char) : Option UInt8 :=
  match c with
  | 'a' => some 7
  | 'b' => some 8
  | 't' => some 9
  | 'n' => some 10
  | 'v' => some 11
  | 'f' => some 12
  | 'r' => some 13
  | 'e' => some 27
  | '\\' => some 92
  | _ => none

/-- True of octal digits. -/
def isOctal (c : Char) : Bool := '0' ≤ c && c ≤ '7'

/-- The byte of octal digits. -/
def octalByte (digits : List Char) : UInt8 :=
  UInt8.ofNat (digits.foldl (fun n d => n * 8 + (d.toNat - '0'.toNat)) 0)

/-- The octal digits of an escape; after a zero that marks it there may be three more. -/
def octalDigits (marked : Bool) (cs : List Char) : List Char :=
  let count := if marked ∧ cs.head? = some '0' then 4 else 3
  (cs.take count).takeWhile isOctal

/-- A text whose backslashes stand for characters.  In a format no zero marks an octal escape. -/
def unescape (marked : Bool) : (fuel : Nat) → List Char → Written
  | 0, _ | _, [] => Written.empty
  | fuel + 1, '\\' :: c :: cs =>
    if marked ∧ c = 'c' then ⟨[], true⟩
    else match escapedByte? c with
    | some b => Written.append ⟨[b], false⟩ (unescape marked fuel cs)
    | none =>
      let digits := octalDigits marked (c :: cs)
      if digits.isEmpty then
        Written.append ⟨Text.bytes (String.ofList ['\\', c]), false⟩ (unescape marked fuel cs)
      else
        Written.append ⟨[octalByte digits], false⟩
          (unescape marked fuel ((c :: cs).drop digits.length))
  | fuel + 1, c :: cs =>
    Written.append ⟨Text.bytes (String.singleton c), false⟩ (unescape marked fuel cs)

/-! ## Formats -/

/-- How an argument is laid out. -/
structure Field where
  flags : List Char
  width : Nat
  precision? : Option Nat
  kind : Char
deriving Repr, Inhabited

/-- A part of a format. -/
inductive FormatPart where
  | text (characters : List Char)
  | field (field : Field)
deriving Repr, Inhabited

/-- The field after a percent sign, and what follows it. -/
def readField? (cs : List Char) : Option (Field × List Char) :=
  let flags := cs.takeWhile (fun c => c = '-' || c = '0' || c = '+' || c = ' ' || c = '#')
  let cs := cs.drop flags.length
  let width := cs.takeWhile Number.isDigit
  let cs := cs.drop width.length
  let (precision?, cs) := match cs with
    | '.' :: cs =>
      let digits := cs.takeWhile Number.isDigit
      (some (Number.natOfDigits digits), cs.drop digits.length)
    | cs => (none, cs)
  match cs with
  | kind :: cs => some (⟨flags, Number.natOfDigits width, precision?, kind⟩, cs)
  | [] => none

/-- The parts of a format. -/
def readFormat : (fuel : Nat) → (text : List Char) → List Char → List FormatPart
  | 0, text, _ => [.text text.reverse]
  | _ + 1, text, [] => [.text text.reverse]
  | fuel + 1, text, '%' :: '%' :: cs => readFormat fuel ('%' :: text) cs
  | fuel + 1, text, '%' :: cs =>
    match readField? cs with
    | some (field, rest) => .text text.reverse :: .field field :: readFormat fuel [] rest
    | none => readFormat fuel ('%' :: text) cs
  | fuel + 1, text, '\\' :: c :: cs => readFormat fuel (c :: '\\' :: text) cs
  | fuel + 1, text, c :: cs => readFormat fuel (c :: text) cs

/-- The integer of an argument; nothing stands for zero. -/
def readInteger? (argument : String) : Option Int :=
  match argument.toList with
  | [] => some 0
  | '-' :: ds =>
    if ds ≠ [] ∧ ds.all Number.isDigit then some (-(Number.natOfDigits ds : Int)) else none
  | '\'' :: c :: _ | '"' :: c :: _ => some (c.toNat : Int)
  | ds => if ds.all Number.isDigit then some (Number.natOfDigits ds : Int) else none

namespace Field

/-- A text at the width of a field. -/
def pad (f : Field) (text : List Char) : List Char :=
  let missing := f.width - text.length
  if '-' ∈ f.flags then text ++ List.replicate missing ' '
  else if '0' ∈ f.flags ∧ f.kind ≠ 's' then
    match text with
    | '-' :: ds => '-' :: (List.replicate missing '0' ++ ds)
    | ds => List.replicate missing '0' ++ ds
  else List.replicate missing ' ' ++ text

/-- An integer in a field. -/
def integer (f : Field) (n : Int) : List Char :=
  let digits := match f.kind with
    | 'x' => Nat.toDigits 16 n.toNat
    | 'X' => (Nat.toDigits 16 n.toNat).map Char.toUpper
    | 'o' => Nat.toDigits 8 n.toNat
    | _ => Number.integerChars n
  f.pad (if '+' ∈ f.flags ∧ 0 ≤ n then '+' :: digits else digits)

/-- An argument in a field, and whether it fitted the field; none for a field of no kind. -/
def write? (f : Field) (argument : String) : Option (Written × Bool) :=
  match f.kind with
  | 's' =>
    let text := match f.precision? with
      | some n => argument.toList.take n
      | none => argument.toList
    some (⟨Text.bytes (String.ofList (f.pad text)), false⟩, true)
  | 'c' => some (⟨Text.bytes (String.ofList (f.pad (argument.toList.take 1))), false⟩, true)
  | 'b' => some (unescape true argument.length argument.toList, true)
  | 'd' | 'i' | 'u' | 'x' | 'X' | 'o' =>
    let n? := readInteger? argument
    some (⟨Text.bytes (String.ofList (f.integer (n?.getD 0))), false⟩, n?.isSome)
  | _ => none

end Field

/-- The parts of a format with arguments, the arguments that are left, and whether all fitted. -/
def formatOnce : List FormatPart → List String → Option (Written × List String × Bool)
  | [], arguments => some (Written.empty, arguments, true)
  | .text characters :: parts, arguments => do
    let w := unescape false characters.length characters
    let (v, rest, fitted) ← formatOnce parts arguments
    return (w.append v, rest, fitted)
  | .field f :: parts, arguments => do
    let (w, fits) ← f.write? (arguments.head?.getD "")
    let (v, rest, fitted) ← formatOnce parts (arguments.drop 1)
    return (w.append v, rest, fits && fitted)

/-- A format with arguments, used again while arguments are left. -/
def formatAll (parts : List FormatPart) :
    (fuel : Nat) → List String → Option (Written × Bool)
  | 0, _ => some (Written.empty, true)
  | fuel + 1, arguments => do
    let (w, rest, fitted) ← formatOnce parts arguments
    if rest.isEmpty || rest.length = arguments.length then return (w, fitted)
    let (v, more) ← formatAll parts fuel rest
    return (w.append v, fitted && more)

end StateFlow.Shell
