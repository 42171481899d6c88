import StateFlow.Number.Binary64

/-!
# The shortest decimal that reads back

The reals that round to a double form an interval around it, its ends included when the mantissa
is even.  `Binary64.shortest` walks the decimal grids of 1, 2, … 17 digits and takes the first one
with a point in that interval: the nearer of the value's two neighbours, the even one on a tie.
-/

namespace StateFlow

/-- A positive decimal `digits * 10 ^ scale`. -/
structure Decimal where
  digits : Nat
  scale : Int
deriving DecidableEq, Repr, Inhabited

namespace Decimal

/-- The same decimal without trailing zeros; `fuel` bounds their number. -/
def trim : (fuel : Nat) → Decimal → Decimal
  | 0, d => d
  | fuel + 1, d =>
    if d.digits ≠ 0 ∧ d.digits % 10 = 0 then trim fuel ⟨d.digits / 10, d.scale + 1⟩ else d

end Decimal

namespace Binary64

/-- The interval of reals that round to a positive double, in quarters of its last place. -/
structure Basin where
  low : Nat
  high : Nat
  closed : Bool

/-- The gap below a power of two is half the gap above it, except at the least exponent. -/
def basin (x : Binary64) : Basin where
  low := if x.mantissa = leastNormal ∧ x.exponent ≠ leastExponent then 4 * x.mantissa - 1
    else 4 * x.mantissa - 2
  high := 4 * x.mantissa + 2
  closed := x.mantissa % 2 == 0

/-- The greatest `k` with `10 ^ k ≤ num / den`, near the estimate `k`. -/
def adjustLog10 (num den : Nat) (k : Int) : Int :=
  let reaches (k : Int) : Bool := den * Nat.pow 10 k.toNat ≤ num * Nat.pow 10 (-k).toNat
  if reaches (k + 1) then k + 1 else if reaches k then k else k - 1

/-- The decimal exponent of the leading digit of a positive double. -/
def decimalExponent (x : Binary64) : Int :=
  let k := (floorLog2 x.numerator x.denominator * 30103).fdiv 100000
  adjustLog10 x.numerator x.denominator k

/-- A grid point inside the basin, on the grid of multiples of `10 ^ scale`, if there is one. -/
def nearestOnGrid? (x : Binary64) (scale : Int) : Option Decimal :=
  -- everything in units of `2 ^ (exponent - 2) * 10 ^ min 0 scale`
  let binary := x.exponent - 2
  let unit := Nat.pow 10 scale.toNat <<< (-binary).toNat
  let factor := Nat.pow 10 (-scale).toNat <<< binary.toNat
  let b := x.basin
  let value := 4 * x.mantissa * factor
  let inside (d : Nat) : Bool :=
    let point := d * unit
    if b.closed then b.low * factor ≤ point && point ≤ b.high * factor
    else b.low * factor < point && point < b.high * factor
  let below := value / unit
  let above := below + 1
  match inside below, inside above with
  | true, false => some ⟨below, scale⟩
  | false, true => some ⟨above, scale⟩
  | false, false => none
  | true, true =>
    let down := value - below * unit
    let up := above * unit - value
    if down < up then some ⟨below, scale⟩
    else if up < down then some ⟨above, scale⟩
    else if below % 2 = 0 then some ⟨below, scale⟩ else some ⟨above, scale⟩

/-- The first hit on grids of increasing fineness. -/
def searchGrids (x : Binary64) : (fuel : Nat) → (scale : Int) → Decimal
  | 0, scale =>
    let num := x.numerator * Nat.pow 10 (-scale).toNat
    let den := x.denominator * Nat.pow 10 scale.toNat
    ⟨roundDiv num den, scale⟩
  | fuel + 1, scale =>
    match x.nearestOnGrid? scale with
    | some d => d
    | none => searchGrids x fuel (scale - 1)

/-- The shortest decimal that reads back as the absolute value of a nonzero double. -/
def shortest (x : Binary64) : Decimal :=
  (searchGrids x 17 x.decimalExponent).trim 330

end Binary64

end StateFlow
