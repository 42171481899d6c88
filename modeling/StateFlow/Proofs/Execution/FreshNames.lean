import Mathlib.Algebra.Group.Nat.Defs
import StateFlow.Execution.Situation

/-!
# Fresh names are distinct

The names that a world gives out are laid out like random identifiers, and like these they are taken
to be distinct (`World.NamesDistinct`).  A name shows thirty hexadecimal digits of its number, so
they are distinct up to `16 ^ 30` of them.

## Main definitions

* `World.NamesDistinct`: the names that were given out so far are distinct

## Main results

* `freshName_injective`: numbers below `16 ^ 30` have different names
* `World.namesDistinct_of_le`: so many names are distinct
-/

namespace StateFlow

/-! ## Digits -/

@[simp] theorem length_hexDigits (count n : Nat) : (hexDigits count n).length = count := by
  simp [hexDigits]

/-- The digits of a number begin with the one of the highest place. -/
theorem hexDigits_succ (count n : Nat) : hexDigits (count + 1) n =
    "0123456789abcdef".toList.getD ((n / 16 ^ count) % 16) '0' :: hexDigits count n := by
  have hpow : 2 ^ (4 * count) = 16 ^ count := by
    rw [Nat.pow_mul]
  simp [hexDigits, List.range_succ, Nat.shiftRight_eq_div_pow, hpow]

/-- Different digits are written differently. -/
theorem hexDigit_injective : ∀ x < 16, ∀ y < 16,
    "0123456789abcdef".toList.getD x '0' = "0123456789abcdef".toList.getD y '0' → x = y := by
  decide

theorem mod_eq_of_hexDigits_eq {count n k : Nat} (h : hexDigits count n = hexDigits count k) :
    n % 16 ^ count = k % 16 ^ count := by
  induction count with
  | zero => simp [Nat.mod_one]
  | succ count ih =>
    rw [hexDigits_succ, hexDigits_succ] at h
    obtain ⟨hfirst, hrest⟩ := List.cons.inj h
    have hdigit : n / 16 ^ count % 16 = k / 16 ^ count % 16 :=
      hexDigit_injective _ (Nat.mod_lt _ (by decide)) _ (Nat.mod_lt _ (by decide)) hfirst
    rw [Nat.mod_pow_succ, Nat.mod_pow_succ, ih hrest, hdigit]

/-! ## Names -/

/-- A list of thirty is made of the five groups that a name shows. -/
theorem groups_eq {ds : List Char} (h : ds.length = 30) :
    ds.take 8 ++ ((ds.drop 8).take 4 ++ ((ds.drop 12).take 3 ++ ((ds.drop 15).take 3 ++
      (ds.drop 18).take 12))) = ds := by
  have hcut : ∀ i j, (ds.drop i).take j ++ ds.drop (i + j) = ds.drop i := by
    intro i j
    rw [← List.drop_drop]
    exact List.take_append_drop j (ds.drop i)
  have hlast : (ds.drop 18).take 12 = ds.drop 18 := by
    rw [List.take_of_length_le]
    simp [h]
  rw [hlast, hcut 15 3, hcut 12 3, hcut 8 4, List.take_append_drop]

/-- The digits of a name can be read off it. -/
theorem hexDigits_eq_of_freshName_eq {n k : Nat} (h : freshName n = freshName k) :
    hexDigits 30 n = hexDigits 30 k := by
  have hn := length_hexDigits 30 n
  have hk := length_hexDigits 30 k
  have hlist := String.ofList_injective h
  -- the groups have the same lengths in both names, and are compared from the last to the first
  obtain ⟨hlist, hlast⟩ := List.append_inj' hlist (by simp)
  obtain ⟨hlist, hfourth⟩ := List.append_inj' hlist (by simp)
  obtain ⟨hlist, hthird⟩ := List.append_inj' hlist (by simp)
  obtain ⟨hfirst, hsecond⟩ := List.append_inj' hlist (by simp)
  simp only [List.cons.injEq, true_and] at hsecond hthird hfourth hlast
  rw [← groups_eq hn, ← groups_eq hk, hfirst, hsecond, hthird, hfourth, hlast]

/-- **Numbers below `16 ^ 30` have different names.** -/
theorem freshName_injective {n k : Nat} (hn : n < 16 ^ 30) (hk : k < 16 ^ 30)
    (h : freshName n = freshName k) : n = k := by
  have hmod := mod_eq_of_hexDigits_eq (hexDigits_eq_of_freshName_eq h)
  rwa [Nat.mod_eq_of_lt hn, Nat.mod_eq_of_lt hk] at hmod

/-- The names that were given out so far are distinct. -/
def World.NamesDistinct (w : World) : Prop :=
  ∀ n k, n < w.named → k < w.named → freshName n = freshName k → n = k

theorem World.namesDistinct_of_le {w : World} (h : w.named ≤ 16 ^ 30) : w.NamesDistinct := by
  intro n k hn hk heq
  exact freshName_injective (Nat.lt_of_lt_of_le hn h) (Nat.lt_of_lt_of_le hk h) heq

theorem World.NamesDistinct.mono {w w' : World} (h : w'.NamesDistinct)
    (hle : w.named ≤ w'.named) : w.NamesDistinct :=
  fun n k hn hk => h n k (Nat.lt_of_lt_of_le hn hle) (Nat.lt_of_lt_of_le hk hle)

/-- A name that is given out is none of those that were given out before. -/
theorem World.NamesDistinct.freshName_ne {w w' : World} (h : w'.NamesDistinct)
    (hlt : w.named < w'.named) {n : Nat} (hn : n < w.named) : freshName n ≠ freshName w.named := by
  intro heq
  have := h n w.named (Nat.lt_trans hn hlt) hlt heq
  omega

end StateFlow
