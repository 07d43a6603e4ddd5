import Mathlib
import LinProg.Scalar

/-!
The exact rationals as numbers.

* `Scalar.abs_eq`, `Scalar.sum_eq`: the magnitude is the absolute value and the sum of a list is its
  sum.
* `Scalar.largest_eq_zero`: zeros have no larger member.
-/

namespace LinProg.Scalar

/-- The magnitude of a rational is its absolute value. -/
lemma abs_eq (x : ℚ) : Scalar.abs x = |x| := by
  change (if x < 0 then -x else x) = |x|
  split_ifs with h
  · rw [abs_of_neg h]
  · rw [abs_of_nonneg (not_lt.mp h)]

/-- Over the rationals the first summand, a negative zero, does nothing. -/
lemma sum_eq (xs : List ℚ) : Scalar.sum xs = xs.sum := by
  rw [Scalar.sum, List.sum_eq_foldl, neg_zero]

/-- The largest of any number of zeros is zero. -/
lemma largest_eq_zero {xs : List ℚ} (h : ∀ x ∈ xs, x = 0) : Scalar.largest xs = 0 := by
  rw [largest]
  induction xs with
  | nil => rfl
  | cons x xs ih =>
      have hx : x = 0 := h x (by simp)
      rw [List.foldl_cons, hx, if_neg (lt_irrefl _)]
      exact ih fun y hy => h y (by simp [hy])

end LinProg.Scalar
