import StateFlow.Number.Shortest

/-!
# Numbers of a document

A number is an exact integer when its text is an integer of 64 bits, signed or unsigned, and a
double otherwise.  This module holds the type, its order, its text and the reading of that text.
-/

namespace StateFlow

/-- A number of a document: an exact integer or a double. -/
inductive Number where
  | integer (value : Int)
  | real (value : Binary64)
deriving DecidableEq, Repr, Inhabited

namespace Number

/-- The least integer kept exactly. -/
def leastInteger : Int := -0x8000000000000000

/-- The greatest integer kept exactly. -/
def greatestInteger : Int := 0xFFFFFFFFFFFFFFFF

/-- The greatest signed integer of 64 bits. -/
def greatestSigned : Int := 0x7FFFFFFFFFFFFFFF

/-- The nearest double.  An integer of 64 bits always has one. -/
def toBinary64 : Number → Binary64
  | integer n => (Binary64.ofInt? n).getD (Binary64.zero false)
  | real x => x

/-- Two integers of one 64-bit range, signed or unsigned, compare exactly; any other pair compares
by the nearest doubles. -/
def compare (x y : Number) : Ordering :=
  match x, y with
  | integer m, integer n =>
    -- the doubles are left for a negative integer beside one above the signed range
    if m ≤ greatestSigned ∧ n ≤ greatestSigned then Ord.compare m n
    else if 0 ≤ m ∧ 0 ≤ n then Ord.compare m n
    else x.toBinary64.compare y.toBinary64
  | _, _ => x.toBinary64.compare y.toBinary64

/-- The integer itself when it is one that fits unsigned 64 bits. -/
def toUnsigned? : Number → Option Nat
  | integer n => if 0 ≤ n then some n.toNat else none
  | real _ => none

/-! ## Text -/

/-- How the decimal text of a double is laid out. -/
structure Layout where
  /-- Least decimal exponent written positionally. -/
  positionalFrom : Int
  /-- Greatest decimal exponent written positionally. -/
  positionalUpTo : Int

/-- Doubles are written positionally for decimal exponents -5 to 15. -/
def layout : Layout := ⟨-5, 15⟩

/-- Decimal digits of a natural number. -/
def digitChars (n : Nat) : List Char := Nat.toDigits 10 n

/-- A decimal with its point placed: digits, then zeros or a fraction, always with one. -/
def positional (digits : List Char) (exponent : Int) : List Char :=
  if exponent < 0 then
    '0' :: '.' :: (List.replicate (-exponent - 1).toNat '0' ++ digits)
  else
    let whole := exponent.toNat + 1
    if digits.length ≤ whole then
      digits ++ List.replicate (whole - digits.length) '0' ++ ['.', '0']
    else digits.take whole ++ '.' :: digits.drop whole

/-- A decimal with one digit before the point and a signed exponent. -/
def scientific (digits : List Char) (exponent : Int) : List Char :=
  let lead := match digits with
    | [] => ['0']
    | [d] => [d]
    | d :: ds => d :: '.' :: ds
  lead ++ 'e' :: (if exponent < 0 then '-' else '+') :: digitChars exponent.natAbs

/-- The text of a double: the fewest digits that read back, and always a point or an exponent. -/
def realChars (x : Binary64) : List Char :=
  let magnitude :=
    if x.isZero then ['0', '.', '0']
    else
      let d := x.shortest
      let digits := digitChars d.digits
      let exponent := d.scale + (digits.length - 1 : Nat)
      if layout.positionalFrom ≤ exponent ∧ exponent ≤ layout.positionalUpTo then
        positional digits exponent
      else scientific digits exponent
  if x.negative then '-' :: magnitude else magnitude

/-- The text of an integer. -/
def integerChars (n : Int) : List Char :=
  if n < 0 then '-' :: digitChars n.natAbs else digitChars n.natAbs

/-- The text of a number. -/
def chars : Number → List Char
  | integer n => integerChars n
  | real x => realChars x

/-- The text of a number. -/
def text (x : Number) : String := String.ofList x.chars

/-! ## Reading -/

/-- True of the ten decimal digits. -/
def isDigit (c : Char) : Bool := '0' ≤ c && c ≤ '9'

/-- The value of a decimal digit. -/
def digitValue (c : Char) : Nat := c.toNat - '0'.toNat

/-- The value of a run of decimal digits. -/
def natOfDigits (ds : List Char) : Nat := ds.foldl (fun n c => n * 10 + digitValue c) 0

/-- The greatest significand kept while reading a decimal. -/
def greatestSignificand : Nat := 0xFFFFFFFFFFFFFFFF

/-- Whole digits taken into the significand while it fits 64 bits, and how many were left. -/
def absorbWhole (significand : Nat) : List Char → Nat × Nat
  | [] => (significand, 0)
  | d :: ds =>
    let next := significand * 10 + digitValue d
    if next ≤ greatestSignificand then absorbWhole next ds else (significand, ds.length + 1)

/-- Fraction digits taken into the significand while it fits 64 bits, and how many were taken. -/
def absorbFraction (significand taken : Nat) : List Char → Nat × Nat
  | [] => (significand, taken)
  | d :: ds =>
    let next := significand * 10 + digitValue d
    if next ≤ greatestSignificand then absorbFraction next (taken + 1) ds else (significand, taken)

/-- The largest power of ten that is a finite double. -/
def greatestPower : Nat := 308

/-- The double nearest to `10 ^ k`. -/
def powerOfTen (k : Nat) : Binary64 :=
  (Binary64.ofRatio? false (Nat.pow 10 k) 1).getD (Binary64.zero false)

/-- A double divided by `10 ^ k`, in steps of at most `10 ^ 308`, each rounded. -/
def scaleDown (x : Binary64) (k : Nat) : Option Binary64 :=
  if k ≤ greatestPower then x.div? (powerOfTen k)
  else do
    let y ← x.div? (powerOfTen greatestPower)
    if y.isZero then some y
    else if k - greatestPower ≤ greatestPower then y.div? (powerOfTen (k - greatestPower))
    else some (Binary64.zero x.negative)

/-- A decimal read as its rounded significand times or over a rounded power of ten; `none` when
the result is not finite. -/
def ofSignificand? (negative : Bool) (significand : Nat) (scale : Int) : Option Binary64 := do
  let x ← Binary64.ofRatio? negative significand 1
  if x.isZero then some x
  else if 0 ≤ scale then
    if scale.toNat ≤ greatestPower then x.mul? (powerOfTen scale.toNat) else none
  else scaleDown x (-scale).toNat

/-- The parts of a number's text. -/
structure Literal where
  negative : Bool
  whole : List Char
  fraction : Option (List Char)
  exponent : Option Int
deriving Repr

namespace Literal

/-- The exponent part `e`, an optional sign and at least one digit, to the end of the text. -/
def readExponent? : List Char → Option (Option Int)
  | [] => some none
  | e :: cs =>
    if e = 'e' ∨ e = 'E' then
      let (sign, ds) : Int × List Char := match cs with
        | '+' :: ds => (1, ds)
        | '-' :: ds => (-1, ds)
        | ds => (1, ds)
      if ds ≠ [] ∧ ds.all isDigit then some (some (sign * natOfDigits ds)) else none
    else none

/-- A number's text by its grammar: sign, whole part without leading zeros, fraction, exponent. -/
def read? (cs : List Char) : Option Literal := do
  let (negative, cs) := match cs with
    | '-' :: r => (true, r)
    | r => (false, r)
  let whole := cs.takeWhile isDigit
  let rest := cs.dropWhile isDigit
  guard (whole ≠ [] ∧ (whole.head? = some '0' → whole.length = 1))
  match rest with
  | '.' :: r =>
    let fraction := r.takeWhile isDigit
    guard (fraction ≠ [])
    let exponent ← readExponent? (r.dropWhile isDigit)
    return ⟨negative, whole, some fraction, exponent⟩
  | r =>
    let exponent ← readExponent? r
    return ⟨negative, whole, none, exponent⟩

/-- The double that a literal with a fraction, an exponent or too many digits stands for. -/
def toReal? (l : Literal) : Option Binary64 :=
  let (significand, left) := absorbWhole 0 l.whole
  let (significand, taken) := absorbFraction significand 0 (l.fraction.getD [])
  ofSignificand? l.negative significand ((left : Int) - taken + l.exponent.getD 0)

/-- An integer literal of 64 bits is exact, except the negative zero; the rest are doubles. -/
def toNumber? (l : Literal) : Option Number :=
  let n := natOfDigits l.whole
  if l.fraction.isNone ∧ l.exponent.isNone then
    if l.negative then
      if n ≠ 0 ∧ leastInteger ≤ -(n : Int) then some (integer (-n)) else real <$> l.toReal?
    else if n ≤ greatestSignificand then some (integer n) else real <$> l.toReal?
  else real <$> l.toReal?

end Literal

/-- A number from its text; `none` when the text is malformed or not finite. -/
def read? (cs : List Char) : Option Number := do (← Literal.read? cs).toNumber?

end Number

end StateFlow
