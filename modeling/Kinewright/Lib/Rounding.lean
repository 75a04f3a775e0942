import Mathlib.Algebra.Order.Ring.Int

/-!
# Rounded quotients

A quotient of integers that is rounded to the nearest integer, a half away from zero. It is monotone in the
numerator, and off by half a unit at most.
-/

namespace Rounding

/-- The integer nearest to `n / d`, a half away from zero. -/
def halfAway (d n : ℤ) : ℤ := if 0 ≤ n then (n + d / 2) / d else -((-n + d / 2) / d)

variable {d n m k : ℤ}

theorem halfAway_of_nonneg (h : 0 ≤ n) : halfAway d n = (n + d / 2) / d := if_pos h

theorem halfAway_of_neg (h : n < 0) : halfAway d n = -((-n + d / 2) / d) := if_neg (Int.not_le.mpr h)

section

variable (hd : 0 < d)

include hd

theorem halfAway_zero : halfAway d 0 = 0 := by
  exact Int.ediv_eq_zero_of_lt (by omega) (by omega)

theorem halfAway_neg (n : ℤ) : halfAway d (-n) = -halfAway d n := by
  rcases lt_trichotomy n 0 with h | rfl | h
  · rw [halfAway_of_nonneg (by omega), halfAway_of_neg h, Int.neg_neg]
  · rw [Int.neg_zero, halfAway_zero hd, Int.neg_zero]
  · rw [halfAway_of_neg (by omega), halfAway_of_nonneg (by omega), Int.neg_neg]

theorem halfAway_nonneg (h : 0 ≤ n) : 0 ≤ halfAway d n := by
  rw [halfAway_of_nonneg h]
  exact Int.ediv_nonneg (by omega) (by omega)

theorem halfAway_mono (h : n ≤ m) : halfAway d n ≤ halfAway d m := by
  by_cases hn : 0 ≤ n
  · rw [halfAway_of_nonneg hn, halfAway_of_nonneg (by omega)]
    exact Int.ediv_le_ediv hd (by omega)
  · rw [halfAway_of_neg (by omega)]
    by_cases hm : 0 ≤ m
    · have hlow : 0 ≤ (-n + d / 2) / d := Int.ediv_nonneg (by omega) (by omega)
      have hhigh := halfAway_nonneg hd hm
      omega
    · rw [halfAway_of_neg (by omega)]
      have := Int.ediv_le_ediv hd (show -m + d / 2 ≤ -n + d / 2 by omega)
      omega

/-- A multiple of the denominator is not rounded. -/
theorem halfAway_mul (k : ℤ) : halfAway d (d * k) = k := by
  have hnonneg (k : ℤ) (hk : 0 ≤ k) : halfAway d (d * k) = k := by
    rw [halfAway_of_nonneg (Int.mul_nonneg hd.le hk), Int.add_comm, Int.add_mul_ediv_left _ _ (by omega),
      Int.ediv_eq_zero_of_lt (by omega) (by omega), Int.zero_add]
  rcases le_total 0 k with hk | hk
  · exact hnonneg k hk
  · have hneg := hnonneg (-k) (by omega)
    rw [Int.mul_neg, halfAway_neg hd] at hneg
    omega

/-- A rounded quotient is half a unit off at most. -/
theorem halfAway_error (n : ℤ) : 2 * n - d ≤ 2 * (d * halfAway d n) ∧ 2 * (d * halfAway d n) ≤ 2 * n + d := by
  have hnonneg (n : ℤ) (hn : 0 ≤ n) :
      2 * n - d ≤ 2 * (d * halfAway d n) ∧ 2 * (d * halfAway d n) ≤ 2 * n + d := by
    rw [halfAway_of_nonneg hn]
    have hlow := Int.mul_ediv_self_le (x := n + d / 2) (k := d) (by omega)
    have hhigh := Int.lt_mul_ediv_self_add (x := n + d / 2) hd
    omega
  rcases le_total 0 n with hn | hn
  · exact hnonneg n hn
  · have hneg := hnonneg (-n) (by omega)
    rw [halfAway_neg hd, Int.mul_neg d] at hneg
    omega

end

end Rounding
