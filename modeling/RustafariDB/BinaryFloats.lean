import Mathlib.Algebra.Order.Field.Rat
import Mathlib.Algebra.Order.Field.Power
import Mathlib.Tactic.GCongr
import Mathlib.Tactic.Ring
import Mathlib.Order.Compare

/-!
# Canonical binary numbers

A positive binary number is a mantissa times a power of two. In canonical form the
mantissa uses all its bits unless the exponent is the least one, and then numbers are
ordered as pairs of exponent and mantissa.
-/

namespace BinaryFloats

/-- The number with mantissa `m` and exponent `e`. -/
def scaled (m : Nat) (e : Int) : ℚ := m * 2 ^ e

/-- The mantissa fits in `p + 1` bits, and uses the highest unless `e` is the least exponent. -/
structure Canonical (p : Nat) (least : Int) (m : Nat) (e : Int) : Prop where
  fits : m < 2 ^ (p + 1)
  above : least ≤ e
  full : least < e → 2 ^ p ≤ m

variable {p m n : Nat} {least e f : Int}

theorem scaled_pos (positive : 0 < m) (e : Int) : 0 < scaled m e := by
  have mantissa : (0 : ℚ) < m := by exact_mod_cast positive
  have power : (0 : ℚ) < 2 ^ e := zpow_pos (by norm_num) e
  exact mul_pos mantissa power

theorem scaled_lt_of_mantissa (less : m < n) (e : Int) : scaled m e < scaled n e := by
  have mantissas : (m : ℚ) < n := by exact_mod_cast less
  have power : (0 : ℚ) < 2 ^ e := zpow_pos (by norm_num) e
  exact mul_lt_mul_of_pos_right mantissas power

/-- A greater exponent outweighs the mantissas. -/
theorem scaled_lt_of_exponent (hm : Canonical p least m e) (hn : Canonical p least n f)
    (less : e < f) : scaled m e < scaled n f := by
  have fits : (m : ℚ) < 2 ^ (p + 1) := by exact_mod_cast hm.fits
  have full : (2 : ℚ) ^ p ≤ n := by exact_mod_cast hn.full (lt_of_le_of_lt hm.above less)
  have power (k : Int) : (0 : ℚ) < 2 ^ k := zpow_pos (by norm_num) k
  calc scaled m e < 2 ^ (p + 1) * 2 ^ e := mul_lt_mul_of_pos_right fits (power e)
    _ = 2 ^ p * 2 ^ (e + 1) := by
      rw [pow_succ, zpow_add_one₀ (by norm_num)]
      ring
    _ ≤ 2 ^ p * 2 ^ f := by
      have step : (2 : ℚ) ^ (e + 1) ≤ 2 ^ f := zpow_le_zpow_right₀ (by norm_num) less
      exact mul_le_mul_of_nonneg_left step (pow_pos (by norm_num) p).le
    _ ≤ scaled n f := mul_le_mul_of_nonneg_right full (power f).le

/-- Canonical numbers compare by exponent and then by mantissa. -/
theorem compare_scaled (hm : Canonical p least m e) (hn : Canonical p least n f) :
    compare (scaled m e) (scaled n f) = (compare e f).then (compare m n) := by
  rcases lt_trichotomy e f with less | rfl | greater
  · rw [compare_lt_iff_lt.mpr (scaled_lt_of_exponent hm hn less), compare_lt_iff_lt.mpr less]
    rfl
  · rw [compare_eq_iff_eq.mpr (rfl : e = e), Ordering.eq_then]
    rcases lt_trichotomy m n with less | rfl | greater
    · rw [compare_lt_iff_lt.mpr (scaled_lt_of_mantissa less e), compare_lt_iff_lt.mpr less]
    · rw [compare_eq_iff_eq.mpr rfl, compare_eq_iff_eq.mpr rfl]
    · rw [compare_gt_iff_gt.mpr (scaled_lt_of_mantissa greater e), compare_gt_iff_gt.mpr greater]
  · rw [compare_gt_iff_gt.mpr (scaled_lt_of_exponent hn hm greater),
      compare_gt_iff_gt.mpr greater]
    rfl

/-- Negation reverses a comparison. -/
theorem compare_neg_neg (a b : ℚ) : compare (-a) (-b) = compare b a := by
  rcases lt_trichotomy a b with less | rfl | greater
  · rw [compare_gt_iff_gt.mpr (neg_lt_neg less), compare_gt_iff_gt.mpr less]
  · rw [compare_eq_iff_eq.mpr rfl, compare_eq_iff_eq.mpr rfl]
  · rw [compare_lt_iff_lt.mpr (neg_lt_neg greater), compare_lt_iff_lt.mpr greater]

end BinaryFloats
