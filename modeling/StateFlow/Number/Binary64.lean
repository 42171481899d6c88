/-!
# Double-precision values as exact dyadic numbers

A finite double is a sign, a mantissa and a binary exponent, and every operation here is exact
integer arithmetic followed by one rounding.  Nothing depends on the machine's floating point, so
order, rounding and decimal text can all be reasoned about.

`Binary64.ofRatio?` is the only place where rounding happens: to the nearest representable value,
ties to the even mantissa, `none` beyond the largest finite one.
-/

namespace StateFlow

/-- The quotient of `num` by `den` rounded to the nearest natural number, ties to even. -/
def roundDiv (num den : Nat) : Nat :=
  let q := num / den
  let r := num % den
  if 2 * r < den then q
  else if den < 2 * r then q + 1
  else if q % 2 = 0 then q else q + 1

/-- A finite double-precision value: `mantissa * 2 ^ exponent`, negated when `negative`.

The values built here are canonical: the mantissa has 53 bits, or fewer at the least exponent. -/
structure Binary64 where
  negative : Bool
  mantissa : Nat
  exponent : Int
deriving DecidableEq, Repr, Inhabited

namespace Binary64

/-- The exponent of the smallest positive double. -/
def leastExponent : Int := -1074

/-- The exponent of the largest finite double. -/
def greatestExponent : Int := 971

/-- The least mantissa of 53 bits. -/
def leastNormal : Nat := 0x10000000000000

/-- Zero, with a sign. -/
def zero (negative : Bool) : Binary64 := ⟨negative, 0, leastExponent⟩

/-- True of both zeros. -/
def isZero (x : Binary64) : Bool := x.mantissa == 0

/-- The greatest `k` with `2 ^ k * den ≤ num`, for positive `num` and `den`. -/
def floorLog2 (num den : Nat) : Int :=
  let k : Int := (Nat.log2 num : Int) - (Nat.log2 den : Int)
  if den <<< k.toNat ≤ num <<< (-k).toNat then k else k - 1

/-- The double nearest to `num / den`, ties to even; `none` when it would not be finite. -/
def ofRatio? (negative : Bool) (num den : Nat) : Option Binary64 :=
  if num = 0 then some (zero negative)
  else
    let exponent := max (floorLog2 num den - 52) leastExponent
    let mantissa := roundDiv (num <<< (-exponent).toNat) (den <<< exponent.toNat)
    let rounded : Binary64 :=
      if mantissa = 2 * leastNormal then ⟨negative, leastNormal, exponent + 1⟩
      else ⟨negative, mantissa, exponent⟩
    if rounded.exponent ≤ greatestExponent then some rounded else none

/-- The numerator of the absolute value over `denominator`. -/
def numerator (x : Binary64) : Nat := x.mantissa <<< x.exponent.toNat

/-- The denominator of the absolute value, a power of two. -/
def denominator (x : Binary64) : Nat := 1 <<< (-x.exponent).toNat

/-- The double nearest to an integer; `none` only far beyond 64 bits. -/
def ofInt? (n : Int) : Option Binary64 := ofRatio? (decide (n < 0)) n.natAbs 1

/-- The double nearest to `digits * 10 ^ scale`. -/
def ofDecimal? (negative : Bool) (digits : Nat) (scale : Int) : Option Binary64 :=
  ofRatio? negative (digits * Nat.pow 10 scale.toNat) (Nat.pow 10 (-scale).toNat)

/-- Product, rounded once. -/
def mul? (x y : Binary64) : Option Binary64 :=
  ofRatio? (x.negative != y.negative) (x.numerator * y.numerator) (x.denominator * y.denominator)

/-- Quotient by a nonzero double, rounded once. -/
def div? (x y : Binary64) : Option Binary64 :=
  ofRatio? (x.negative != y.negative) (x.numerator * y.denominator) (x.denominator * y.numerator)

/-- The value scaled to an integer by a common power of two of `x` and `y`. -/
def scaled (x : Binary64) (exponent : Int) : Int :=
  let magnitude : Int := (x.mantissa <<< (x.exponent - exponent).toNat : Nat)
  if x.negative then -magnitude else magnitude

/-- The order of the exact values; both zeros are equal. -/
def compare (x y : Binary64) : Ordering :=
  let exponent := min x.exponent y.exponent
  Ord.compare (x.scaled exponent) (y.scaled exponent)

/-- The absolute value in units of `1 / unit`, rounded to the nearest, ties to even. -/
def roundedUnits (x : Binary64) (unit : Nat) : Nat :=
  roundDiv (x.numerator * unit) x.denominator

end Binary64

end StateFlow
