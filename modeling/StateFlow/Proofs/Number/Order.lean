import Mathlib.Data.List.TakeWhile
import StateFlow.Proofs.Number.Nearest

/-!
# The order of numbers

Two integers of 64 bits compare as integers, also where one of them is negative and the other one is
beyond the signed range: they are compared as doubles then, and rounding keeps their signs.  A
double and any other number compare by the doubles nearest to them, so that a double between two
integers can be equal to both.  This is the only way in which the order fails to be transitive.

## Main definitions

* `Number.Kept`: the numbers that a document can hold
* `Number.Writes`: the text of an integer, without a fraction or an exponent
* `Number.Denotes`: the number that is kept for an integer of 64 bits
* `Number.Blurred`: a double between two integers that are both rounded to it

## Main results

* `Number.exists_read?_of_writes`: the text of an integer of 64 bits is read as that integer
* `Number.compare_of_denotes`: integers of 64 bits compare as integers
* `Number.compare_trans_or_blurred`: a comparison in two steps, and when it does not come to one
-/

namespace StateFlow.Number

open Binary64 (nearestInt)

/-- A number that a document can hold: an integer of 64 bits, signed or unsigned, or a double. -/
def Kept : Number → Prop
  | integer n => leastInteger ≤ n ∧ n ≤ greatestInteger
  | real _ => True

/-- The number that a number is taken for beside a double. -/
def nearest (x : Number) : ℚ := x.toBinary64.value

theorem nearest_integer {n : Int} (h : (integer n).Kept) : nearest (integer n) = nearestInt n := by
  have hwidth : n.natAbs < 2 ^ 64 := by
    obtain ⟨hlow, hhigh⟩ := h
    rw [leastInteger] at hlow
    rw [greatestInteger] at hhigh
    omega
  obtain ⟨x, hx, hvalue⟩ := Binary64.exists_ofInt? hwidth
  rw [nearest, toBinary64, hx, Option.getD_some, hvalue]

/-! ## Comparing -/

theorem compare_real_left (v : Binary64) (y : Number) :
    (real v).compare y = Ord.compare (nearest (real v)) y.nearest := Binary64.compare_eq _ _

theorem compare_real_right (x : Number) (v : Binary64) :
    x.compare (real v) = Ord.compare x.nearest (nearest (real v)) := by
  cases x <;> exact Binary64.compare_eq _ _

/-- Two integers compare as integers. -/
theorem compare_integer {m n : Int} (hm : (integer m).Kept) (hn : (integer n).Kept) :
    (integer m).compare (integer n) = Ord.compare m n := by
  unfold compare
  dsimp only
  split_ifs with hsigned hunsigned
  · rfl
  · rfl
  · rw [greatestSigned] at hsigned
    rw [Binary64.compare_eq, ← nearest, ← nearest, nearest_integer hm, nearest_integer hn]
    rcases lt_or_ge m 0 with hneg | hnonneg
    · have hleft := Binary64.nearestInt_neg_of_neg hneg
      have hright := Binary64.nearestInt_pos (show 0 < n by omega)
      rw [compare_lt_iff_lt.mpr (show m < n by omega), compare_lt_iff_lt.mpr]
      exact Int.cast_lt.mpr (hleft.trans hright)
    · have hleft := Binary64.nearestInt_pos (show 0 < m by omega)
      have hright := Binary64.nearestInt_neg_of_neg (show n < 0 by omega)
      rw [compare_gt_iff_gt.mpr (show n < m by omega), compare_gt_iff_gt.mpr]
      exact Int.cast_lt.mpr (hright.trans hleft)

theorem compare_swap {x y : Number} (hx : x.Kept) (hy : y.Kept) :
    y.compare x = (x.compare y).swap := by
  match x, y with
  | integer m, integer n =>
    rw [compare_integer hx hy, compare_integer hy hx]
    exact Std.OrientedCmp.eq_swap
  | real v, y =>
    rw [compare_real_left, compare_real_right]
    exact Std.OrientedCmp.eq_swap
  | integer m, real v =>
    rw [compare_real_left, compare_real_right]
    exact Std.OrientedCmp.eq_swap

theorem compare_self (x : Number) (hx : x.Kept) : x.compare x = .eq := by
  cases x with
  | integer n => rw [compare_integer hx hx, compare_eq_iff_eq.mpr rfl]
  | real v => rw [compare_real_left, compare_eq_iff_eq.mpr rfl]

/-- Numbers that compare in an order are taken for numbers in that order. -/
theorem nearest_le_of_compare {x y : Number} (hx : x.Kept) (hy : y.Kept)
    (h : x.compare y ≠ .gt) : x.nearest ≤ y.nearest := by
  match x, y with
  | integer m, integer n =>
    rw [compare_integer hx hy, Ne, compare_gt_iff_gt, not_lt] at h
    rw [nearest_integer hx, nearest_integer hy]
    exact Int.cast_le.mpr (Binary64.nearestInt_mono h)
  | real v, y => rwa [compare_real_left, Ne, compare_gt_iff_gt, not_lt] at h
  | integer m, real v => rwa [compare_real_right, Ne, compare_gt_iff_gt, not_lt] at h

/-- A double between two integers that are both rounded to it. -/
inductive Blurred : Number → Number → Number → Prop
  | intro {m n : Int} {v : Binary64} (apart : m ≠ n) (left : nearestInt m = v.value)
    (right : nearestInt n = v.value) : Blurred (integer m) (real v) (integer n)

variable {a b c : Number}

/-- The double is equal to both integers, and the integers are not equal. -/
theorem Blurred.compare (h : Blurred a b c) (ha : a.Kept) (hc : c.Kept) :
    a.compare b = .eq ∧ b.compare c = .eq ∧ a.compare c ≠ .eq := by
  obtain ⟨apart, left, right⟩ := h
  refine ⟨?_, ?_, ?_⟩
  · rw [compare_real_right, nearest_integer ha, compare_eq_iff_eq]
    exact left
  · rw [compare_real_left, nearest_integer hc, compare_eq_iff_eq]
    exact right.symm
  · rw [compare_integer ha hc, Ne, compare_eq_iff_eq]
    exact apart

/-- A double is between two integers only if both have more than 53 bits. -/
theorem Blurred.exists_integer (h : Blurred a b c) :
    ∃ m n, a = integer m ∧ c = integer n ∧ 2 ^ 53 ≤ m.natAbs ∧ 2 ^ 53 ≤ n.natAbs := by
  obtain ⟨apart, left, right⟩ := h
  have hequal := Int.cast_injective (left.trans right.symm)
  exact ⟨_, _, rfl, rfl, Binary64.le_natAbs_of_nearestInt_eq apart hequal,
    Binary64.le_natAbs_of_nearestInt_eq apart.symm hequal.symm⟩

/-- Two comparisons that meet come to one, unless they meet in a double between two integers. -/
theorem compare_trans_or_blurred (ha : a.Kept) (hb : b.Kept) (hc : c.Kept)
    (hab : a.compare b ≠ .gt) (hbc : b.compare c ≠ .gt) : a.compare c ≠ .gt ∨ Blurred a b c := by
  have hleft := nearest_le_of_compare ha hb hab
  have hright := nearest_le_of_compare hb hc hbc
  have hboth := hleft.trans hright
  match a, b, c with
  | real v, b, c =>
    rw [compare_real_left, Ne, compare_gt_iff_gt, not_lt]
    exact .inl hboth
  | integer m, b, real v =>
    rw [compare_real_right, Ne, compare_gt_iff_gt, not_lt]
    exact .inl hboth
  | integer m, integer k, integer n =>
    rw [compare_integer ha hb, Ne, compare_gt_iff_gt, not_lt] at hab
    rw [compare_integer hb hc, Ne, compare_gt_iff_gt, not_lt] at hbc
    rw [compare_integer ha hc, Ne, compare_gt_iff_gt, not_lt]
    exact .inl (hab.trans hbc)
  | integer m, real v, integer n =>
    rw [compare_integer ha hc, Ne, compare_gt_iff_gt, not_lt]
    by_cases hle : m ≤ n
    · exact .inl hle
    -- the integers are the other way round, so that rounding has made all three equal
    · rw [nearest_integer ha] at hleft hboth
      rw [nearest_integer hc] at hright hboth
      have hback : nearestInt n ≤ nearestInt m := Binary64.nearestInt_mono (le_of_not_ge hle)
      have hequal : nearestInt m = nearestInt n := le_antisymm (Int.cast_le.mp hboth) hback
      rw [← hequal] at hright
      have hvalue := le_antisymm hleft hright
      exact .inr (.intro (by omega) hvalue (hequal ▸ hvalue))

/-! ## The number of an integer -/

/-- What is kept for an integer of 64 bits: the integer itself, or the negative zero for 0. -/
inductive Denotes : Number → Int → Prop
  | integer {n : Int} (low : leastInteger ≤ n) (high : n ≤ greatestInteger) :
    Denotes (integer n) n
  | negativeZero : Denotes (real (.zero true)) 0

/-- Rounding keeps the sign of an integer. -/
theorem compare_nearestInt_zero (n : Int) :
    Ord.compare (nearestInt n : ℚ) 0 = Ord.compare n 0 := by
  rcases lt_trichotomy n 0 with h | rfl | h
  · rw [compare_lt_iff_lt.mpr h, compare_lt_iff_lt]
    exact Int.cast_lt_zero.mpr (Binary64.nearestInt_neg_of_neg h)
  · rfl
  · rw [compare_gt_iff_gt.mpr h, compare_gt_iff_gt]
    exact Int.cast_pos.mpr (Binary64.nearestInt_pos h)

/-- The integer 0 may be read as a double: its negative zero is 0 beside every other number. -/
theorem compare_integer_negativeZero {n : Int} (hn : (integer n).Kept) :
    (integer n).compare (real (.zero true)) = Ord.compare n 0 := by
  have hzero : nearest (real (.zero true)) = 0 := Binary64.value_zero true
  rw [compare_real_right, hzero, nearest_integer hn, compare_nearestInt_zero]

theorem Denotes.kept {x : Number} {n : Int} (h : x.Denotes n) : x.Kept := by
  cases h with
  | integer low high => exact ⟨low, high⟩
  | negativeZero => trivial

/-- Numbers that are kept for integers compare as the integers. -/
theorem compare_of_denotes {x y : Number} {m n : Int} (hx : x.Denotes m) (hy : y.Denotes n) :
    x.compare y = Ord.compare m n := by
  have hxkept := hx.kept
  have hykept := hy.kept
  cases hx with
  | integer low high =>
    cases hy with
    | integer low' high' => exact compare_integer hxkept hykept
    | negativeZero => exact compare_integer_negativeZero hxkept
  | negativeZero =>
    cases hy with
    | integer low' high' =>
      rw [compare_swap hykept hxkept, compare_integer_negativeZero hykept]
      exact Std.OrientedCmp.eq_swap.symm
    | negativeZero => rfl

/-! ## The text of an integer -/

/-- Decimal digits, without a zero before other digits. -/
structure Numeral (digits : List Char) : Prop where
  nonempty : digits ≠ []
  all_isDigit : digits.all isDigit
  no_leading_zero : digits.head? = some '0' → digits.length = 1

/-- The text of an integer: a numeral, or a minus sign and a numeral. -/
inductive Writes : List Char → Int → Prop
  | nonneg {digits : List Char} (h : Numeral digits) : Writes digits (natOfDigits digits)
  | neg {digits : List Char} (h : Numeral digits) : Writes ('-' :: digits) (-natOfDigits digits)

namespace Numeral

variable {digits : List Char}

theorem takeWhile_isDigit (h : Numeral digits) : digits.takeWhile isDigit = digits :=
  List.takeWhile_eq_self_iff.mpr (List.all_eq_true.mp h.all_isDigit)

theorem dropWhile_isDigit (h : Numeral digits) : digits.dropWhile isDigit = [] :=
  List.dropWhile_eq_nil_iff.mpr (List.all_eq_true.mp h.all_isDigit)

theorem guards (h : Numeral digits) :
    digits ≠ [] ∧ (digits.head? = some '0' → digits.length = 1) :=
  ⟨h.nonempty, h.no_leading_zero⟩

theorem read?_neg (h : Numeral digits) :
    Literal.read? ('-' :: digits) = some ⟨true, digits, none, none⟩ := by
  unfold Literal.read?
  simp only [h.takeWhile_isDigit, h.dropWhile_isDigit, guard, if_pos h.guards,
    Literal.readExponent?]
  rfl

theorem read? (h : Numeral digits) : Literal.read? digits = some ⟨false, digits, none, none⟩ := by
  unfold Literal.read?
  split
  next negative rest heq =>
  split at heq
  · exact absurd h.all_isDigit (by simp [isDigit])
  · cases heq
    simp only [h.takeWhile_isDigit, h.dropWhile_isDigit, guard, if_pos h.guards,
      Literal.readExponent?]
    rfl

theorem le_foldl_digits (digits : List Char) (n : Nat) :
    n ≤ digits.foldl (fun n c => n * 10 + digitValue c) n := by
  induction digits generalizing n with
  | nil => exact le_rfl
  | cons d ds ih =>
    have hnext := ih (n * 10 + digitValue d)
    rw [List.foldl_cons]
    omega

/-- The numeral of 0 is a single zero. -/
theorem eq_zero (h : Numeral digits) (hzero : natOfDigits digits = 0) : digits = ['0'] := by
  cases digits with
  | nil => exact absurd rfl h.nonempty
  | cons d ds =>
    have hbound := le_foldl_digits ds (0 * 10 + digitValue d)
    have hfold : ds.foldl (fun n c => n * 10 + digitValue c) (0 * 10 + digitValue d) = 0 := hzero
    have hvalue : digitValue d = 0 := by omega
    have hdigit : isDigit d = true := List.all_eq_true.mp h.all_isDigit d List.mem_cons_self
    have hd : d = '0' := by
      rw [isDigit, Bool.and_eq_true, decide_eq_true_eq] at hdigit
      have hlow : 48 ≤ d.toNat := hdigit.1
      have hhigh : d.toNat - 48 = 0 := hvalue
      exact Char.toNat_inj.mp (show d.toNat = 48 by omega)
    subst hd
    have hlength := h.no_leading_zero rfl
    rw [List.length_cons] at hlength
    rw [List.length_eq_zero_iff.mp (by omega : ds.length = 0)]

end Numeral

/-- The text of an integer of 64 bits is read as that integer. -/
theorem exists_read?_of_writes {characters : List Char} {n : Int} (h : Writes characters n)
    (low : leastInteger ≤ n) (high : n ≤ greatestInteger) :
    ∃ x, read? characters = some x ∧ x.Denotes n := by
  cases h with
  | nonneg h =>
    have hbound : natOfDigits characters ≤ greatestSignificand := Int.ofNat_le.mp high
    refine ⟨integer (natOfDigits characters), ?_, .integer low high⟩
    simp [read?, h.read?, Literal.toNumber?, hbound]
  | @neg digits h =>
    by_cases hzero : natOfDigits digits = 0
    · rw [h.eq_zero hzero]
      exact ⟨real (.zero true), by decide +kernel, .negativeZero⟩
    · refine ⟨integer (-natOfDigits digits), ?_, .integer low high⟩
      simp [read?, h.read?_neg, Literal.toNumber?, hzero, low]

/-- A number that is read from its text is one that is kept. -/
theorem kept_of_read? {characters : List Char} {x : Number} (h : read? characters = some x) :
    x.Kept := by
  cases x with
  | real v => trivial
  | integer n =>
    obtain ⟨l, -, hl⟩ := Option.bind_eq_some_iff.mp h
    have hreal : ∀ {o : Option Binary64}, ¬ real <$> o = some (integer n) := by
      rintro (_ | v) <;> nofun
    rw [Literal.toNumber?] at hl
    split_ifs at hl with _ hnegative hlow hhigh
    · cases hl
      exact ⟨hlow.2, Int.le_trans (Int.neg_nonpos_of_nonneg (Int.natCast_nonneg _)) (by decide)⟩
    · exact absurd hl hreal
    · cases hl
      exact ⟨Int.le_trans (by decide) (Int.natCast_nonneg _), Int.ofNat_le.mpr hhigh⟩
    · exact absurd hl hreal
    · exact absurd hl hreal

end StateFlow.Number
