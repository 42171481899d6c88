import Mathlib.Algebra.Order.Field.Power
import Mathlib.Data.Rat.Cast.Order
import Mathlib.Tactic.Positivity
import Mathlib.Tactic.Ring
import StateFlow.Number.Basic

/-!
# Doubles as rational numbers

A double stands for a rational number, and doubles compare as the numbers that they stand for.  An
integer of 64 bits is rounded to the nearest double by dropping the bits beyond 53, and everything
that the order of numbers needs to know of this rounding follows from two facts: it keeps the order,
and it moves no integer of 53 bits.

## Main definitions

* `Binary64.value`: the number that a double stands for
* `Binary64.nearestInt`: the integer that the double nearest to an integer stands for

## Main results

* `Binary64.compare_eq`: doubles compare as rational numbers
* `Binary64.exists_ofInt?`: the double of an integer of 64 bits
* `Binary64.nearestInt_mono`, `Binary64.nearestInt_of_lt`: the order is kept, 53 bits are kept
* `Binary64.le_natAbs_of_nearestInt_eq`: only beyond 53 bits are two integers taken for one
-/

namespace StateFlow

/-! ## Rounding a quotient -/

theorem roundDiv_bounds (num den : Nat) :
    num / den ≤ roundDiv num den ∧ roundDiv num den ≤ num / den + 1 := by
  unfold roundDiv
  dsimp only
  split_ifs <;> omega

theorem roundDiv_one (num : Nat) : roundDiv num 1 = num := by
  simp [roundDiv, Nat.mod_one]

theorem roundDiv_mono {a b : Nat} (h : a ≤ b) (den : Nat) : roundDiv a den ≤ roundDiv b den := by
  have hquotient := Nat.div_le_div_right (c := den) h
  rcases Nat.lt_or_eq_of_le hquotient with hlt | heq
  · have ha := (roundDiv_bounds a den).2
    have hb := (roundDiv_bounds b den).1
    omega
  · have hmod : a % den ≤ b % den := by
      have ha := Nat.div_add_mod a den
      have hb := Nat.div_add_mod b den
      rw [heq] at ha
      omega
    unfold roundDiv
    dsimp only
    rw [heq]
    split_ifs <;> omega

namespace Binary64

/-! ## Rounding a natural number -/

/-- A natural number rounded to its 53 leading bits. -/
def rounded (n : Nat) : Nat := roundDiv n (2 ^ (n.log2 - 52)) * 2 ^ (n.log2 - 52)

theorem rounded_of_lt {n : Nat} (h : n < 2 ^ 53) : rounded n = n := by
  have hlog : n.log2 - 52 = 0 := by
    by_cases hn : n = 0
    · simp [hn]
    · have := (Nat.log2_lt hn).mpr h
      omega
  rw [rounded, hlog, pow_zero, roundDiv_one, mul_one]

theorem pow_le_rounded {n : Nat} (hn : n ≠ 0) : 2 ^ n.log2 ≤ rounded n := by
  have hlow := Nat.log2_self_le hn
  by_cases hlog : n.log2 < 53
  · rwa [rounded_of_lt ((Nat.log2_lt hn).mp hlog)]
  · have hsplit : 2 ^ n.log2 = 2 ^ 52 * 2 ^ (n.log2 - 52) := by
      rw [← pow_add]
      congr 1
      omega
    rw [hsplit] at hlow ⊢
    have hquotient : 2 ^ 52 ≤ n / 2 ^ (n.log2 - 52) :=
      (Nat.le_div_iff_mul_le (Nat.two_pow_pos _)).mpr hlow
    exact Nat.mul_le_mul_right _ (hquotient.trans (roundDiv_bounds _ _).1)

theorem rounded_le_pow (n : Nat) : rounded n ≤ 2 ^ (n.log2 + 1) := by
  have hhigh := Nat.lt_log2_self (n := n)
  by_cases hlog : n.log2 < 53
  · have hlt : n < 2 ^ 53 := hhigh.trans_le (Nat.pow_le_pow_right (by decide) hlog)
    rw [rounded_of_lt hlt]
    exact hhigh.le
  · have hsplit : 2 ^ (n.log2 + 1) = 2 ^ 53 * 2 ^ (n.log2 - 52) := by
      rw [← pow_add]
      congr 1
      omega
    rw [hsplit] at hhigh ⊢
    have hquotient : n / 2 ^ (n.log2 - 52) < 2 ^ 53 :=
      (Nat.div_lt_iff_lt_mul (Nat.two_pow_pos _)).mpr hhigh
    have hround := (roundDiv_bounds n (2 ^ (n.log2 - 52))).2
    exact Nat.mul_le_mul_right _ (by omega)

theorem rounded_mono {a b : Nat} (h : a ≤ b) : rounded a ≤ rounded b := by
  by_cases ha : a = 0
  · rw [ha, rounded_of_lt (by decide)]
    exact Nat.zero_le _
  have hb : b ≠ 0 := by omega
  have hlog : a.log2 ≤ b.log2 := by
    rw [Nat.le_log2 hb]
    exact (Nat.log2_self_le ha).trans h
  rcases Nat.lt_or_eq_of_le hlog with hlt | heq
  · calc rounded a ≤ 2 ^ (a.log2 + 1) := rounded_le_pow a
      _ ≤ 2 ^ b.log2 := Nat.pow_le_pow_right (by decide) hlt
      _ ≤ rounded b := pow_le_rounded hb
  · rw [rounded, rounded, heq]
    exact Nat.mul_le_mul_right _ (roundDiv_mono h _)

/-! ## The number that a double stands for -/

/-- The number that a double stands for. -/
def value (x : Binary64) : ℚ := (if x.negative then -1 else 1) * (x.mantissa * 2 ^ x.exponent)

theorem value_zero (negative : Bool) : (zero negative).value = 0 := by
  simp [value, zero]

theorem scaled_mul (x : Binary64) {exponent : Int} (h : exponent ≤ x.exponent) :
    (x.scaled exponent : ℚ) * 2 ^ exponent = x.value := by
  have hpow : ((x.mantissa <<< (x.exponent - exponent).toNat : Nat) : ℚ) * 2 ^ exponent =
      x.mantissa * 2 ^ x.exponent := by
    rw [Nat.shiftLeft_eq, Nat.cast_mul, Nat.cast_pow, Nat.cast_ofNat, mul_assoc, ← zpow_natCast,
      ← zpow_add₀ two_ne_zero]
    congr 2
    omega
  unfold scaled value
  dsimp only
  split_ifs
  · rw [Int.cast_neg, Int.cast_natCast, neg_mul, hpow]
    ring
  · rw [Int.cast_natCast, hpow, one_mul]

/-- Doubles compare as the numbers that they stand for. -/
theorem compare_eq (x y : Binary64) : x.compare y = Ord.compare x.value y.value := by
  have hx := x.scaled_mul (min_le_left x.exponent y.exponent)
  have hy := y.scaled_mul (min_le_right x.exponent y.exponent)
  have hpos : (0 : ℚ) < 2 ^ min x.exponent y.exponent := by positivity
  unfold compare
  dsimp only
  rw [← hx, ← hy]
  generalize x.scaled _ = m at *
  generalize y.scaled _ = n at *
  rcases lt_trichotomy m n with h | h | h
  · rw [compare_lt_iff_lt.mpr h, compare_lt_iff_lt.mpr]
    exact mul_lt_mul_of_pos_right (Int.cast_lt.mpr h) hpos
  · rw [h, compare_eq_iff_eq.mpr rfl, compare_eq_iff_eq.mpr rfl]
  · rw [compare_gt_iff_gt.mpr h, compare_gt_iff_gt.mpr]
    exact mul_lt_mul_of_pos_right (Int.cast_lt.mpr h) hpos

theorem floorLog2_one {n : Nat} (hn : n ≠ 0) : floorLog2 n 1 = n.log2 := by
  have hlow : 1 <<< n.log2 ≤ n := by
    rw [Nat.shiftLeft_eq, one_mul]
    exact Nat.log2_self_le hn
  have hone : Nat.log2 1 = 0 := by decide
  simp [floorLog2, hone, hlow]

/-- The mantissa of a natural number, at the exponent that leaves 53 bits to it. -/
theorem mantissa_mul {n : Nat} (hn : n ≠ 0) {exponent : Int}
    (hexponent : exponent = (n.log2 : Int) - 52) :
    ((roundDiv (n <<< (-exponent).toNat) (1 <<< exponent.toNat) : Nat) : ℚ) * 2 ^ exponent =
      rounded n := by
  rcases le_total exponent 0 with hle | hle
  -- a short integer fills its 53 bits from below, and nothing is rounded
  · have hsmall : n < 2 ^ 53 := (Nat.log2_lt hn).mp (by omega)
    rw [Int.toNat_of_nonpos hle, Nat.shiftLeft_zero, roundDiv_one, rounded_of_lt hsmall,
      Nat.shiftLeft_eq, Nat.cast_mul, Nat.cast_pow, Nat.cast_ofNat, mul_assoc, ← zpow_natCast,
      ← zpow_add₀ two_ne_zero, Int.toNat_of_nonneg (by omega), neg_add_cancel, zpow_zero, mul_one]
  · have hshift : exponent.toNat = n.log2 - 52 := by omega
    have hpower : exponent = ((n.log2 - 52 : Nat) : Int) := by omega
    rw [Int.toNat_of_nonpos (by omega : -exponent ≤ 0), Nat.shiftLeft_zero, Nat.shiftLeft_eq,
      one_mul, hshift, rounded, hpower, zpow_natCast]
    push_cast
    rfl

/-- A natural number of 64 bits is not too large for a double: it is rounded to 53 bits. -/
theorem exists_ofRatio?_one (negative : Bool) {n : Nat} (h : n < 2 ^ 64) :
    ∃ x, ofRatio? negative n 1 = some x ∧
      x.value = (if negative then -1 else 1) * rounded n := by
  by_cases hn : n = 0
  · subst hn
    exact ⟨zero negative, rfl, by rw [value_zero, rounded_of_lt (by decide)]; simp⟩
  have hlog : n.log2 < 64 := (Nat.log2_lt hn).mpr h
  set exponent : Int := (n.log2 : Int) - 52 with hexponent
  have hmax : max ((n.log2 : Int) - 52) leastExponent = exponent := by
    rw [leastExponent]
    omega
  have hmantissa := mantissa_mul hn hexponent
  rw [ofRatio?, if_neg hn]
  dsimp only
  rw [floorLog2_one hn, hmax]
  generalize roundDiv (n <<< (-exponent).toNat) (1 <<< exponent.toNat) = mantissa at hmantissa
  have hexponents : exponent + 1 ≤ greatestExponent := by
    rw [greatestExponent]
    omega
  by_cases hcarry : mantissa = 2 * leastNormal
  · rw [if_pos hcarry, if_pos hexponents]
    refine ⟨_, rfl, ?_⟩
    have hdouble : (leastNormal : ℚ) * 2 ^ (exponent + 1) = mantissa * 2 ^ exponent := by
      rw [zpow_add_one₀ two_ne_zero, hcarry]
      push_cast
      ring
    rw [value, hdouble, hmantissa]
  · rw [if_neg hcarry, if_pos (by dsimp only; omega)]
    exact ⟨_, rfl, by rw [value, hmantissa]⟩

/-! ## The double nearest to an integer -/

/-- The integer that the double nearest to an integer stands for. -/
def nearestInt (n : Int) : Int := n.sign * rounded n.natAbs

theorem nearestInt_pos {n : Int} (h : 0 < n) : 0 < nearestInt n := by
  have hne : n.natAbs ≠ 0 := by omega
  have hpow := Nat.two_pow_pos n.natAbs.log2
  have hround := pow_le_rounded hne
  rw [nearestInt, Int.sign_eq_one_of_pos h, one_mul]
  omega

theorem nearestInt_neg (n : Int) : nearestInt (-n) = -nearestInt n := by
  rw [nearestInt, nearestInt, Int.sign_neg, Int.natAbs_neg, neg_mul]

theorem nearestInt_neg_of_neg {n : Int} (h : n < 0) : nearestInt n < 0 := by
  have hpos := nearestInt_pos (neg_pos.mpr h)
  rwa [nearestInt_neg, neg_pos] at hpos

theorem nearestInt_mono {m n : Int} (h : m ≤ n) : nearestInt m ≤ nearestInt n := by
  have hnonneg : ∀ {a b : Int}, 0 ≤ a → a ≤ b → nearestInt a ≤ nearestInt b := by
    intro a b ha hab
    rcases Int.lt_or_eq_of_le ha with hpos | rfl
    · have hround : rounded a.natAbs ≤ rounded b.natAbs := rounded_mono (by omega)
      rw [nearestInt, nearestInt, Int.sign_eq_one_of_pos hpos, one_mul,
        Int.sign_eq_one_of_pos (by omega), one_mul]
      exact Int.ofNat_le.mpr hround
    · rcases Int.lt_or_eq_of_le hab with hb | rfl
      · exact (nearestInt_pos hb).le
      · exact le_refl _
  rcases le_total 0 m with hm | hm
  · exact hnonneg hm h
  · rcases le_total 0 n with hn | hn
    · have hleft := hnonneg (le_refl 0) (neg_nonneg.mpr hm)
      have hright := hnonneg (le_refl 0) hn
      have hzero : nearestInt 0 = 0 := rfl
      rw [nearestInt_neg] at hleft
      omega
    · have hflip := hnonneg (neg_nonneg.mpr hn) (neg_le_neg h)
      rw [nearestInt_neg, nearestInt_neg] at hflip
      omega

theorem nearestInt_of_lt {n : Int} (h : n.natAbs < 2 ^ 53) : nearestInt n = n := by
  rw [nearestInt, rounded_of_lt h, Int.sign_mul_natAbs]

/-- Only an integer of more than 53 bits is taken for another one. -/
theorem le_natAbs_of_nearestInt_eq {m n : Int} (hne : m ≠ n) (h : nearestInt m = nearestInt n) :
    2 ^ 53 ≤ m.natAbs := by
  by_contra! hm
  rw [nearestInt_of_lt hm] at h
  have hlow : nearestInt (-2 ^ 53) = -2 ^ 53 := by decide +kernel
  have hhigh : nearestInt (2 ^ 53) = 2 ^ 53 := by decide +kernel
  have hn : n.natAbs < 2 ^ 53 := by
    by_contra! hn
    rcases le_total 0 n with hsign | hsign
    · have hmono := nearestInt_mono (show 2 ^ 53 ≤ n by omega)
      omega
    · have hmono := nearestInt_mono (show n ≤ -2 ^ 53 by omega)
      omega
  rw [nearestInt_of_lt hn] at h
  exact hne h

/-- An integer of 64 bits is not too large for a double. -/
theorem exists_ofInt? {n : Int} (h : n.natAbs < 2 ^ 64) :
    ∃ x, ofInt? n = some x ∧ x.value = nearestInt n := by
  obtain ⟨x, hx, hvalue⟩ := exists_ofRatio?_one (decide (n < 0)) h
  refine ⟨x, hx, ?_⟩
  rw [hvalue, nearestInt]
  rcases lt_trichotomy n 0 with hn | rfl | hn
  · simp [hn, Int.sign_eq_neg_one_of_neg hn]
  · rw [rounded_of_lt (by decide)]
    simp
  · simp [hn.le, Int.sign_eq_one_of_pos hn]

end Binary64

end StateFlow
