import LinProg.Proofs.Double
import LinProg.Proofs.Rational

/-!
Arithmetic whose comparisons can be trusted about zero.

* `Scalar.TellsZero`: minus one, a positive number and a number of more than a nonnegative magnitude
  do not pass for zero. No other law is assumed: sums, products and quotients may be anything.
* `Scalar.TellsZero.of_trans`: where the order is transitive, a single comparison of the magnitude
  is enough.
* Exact rationals and doubles are such arithmetics, NaN and the infinities among the doubles.
-/

namespace LinProg

/-- What comparisons say about passing for zero. The engine compares magnitudes with one another, so
a magnitude may be known to exceed a number by any chain of comparisons. -/
class Scalar.TellsZero (α : Type) [Scalar α] : Prop where
  neg_one_ne_zero : ((-1 : α) != 0) = true
  ne_zero_of_pos {x : α} (h : 0 < x) : (x != 0) = true
  ne_zero_of_lt_abs {t x : α} (ht : 0 ≤ t)
    (h : Relation.TransGen (· < ·) t (Scalar.abs x)) : (x != 0) = true

/-- In an arithmetic with a transitive order a chain of comparisons is one comparison. -/
theorem Scalar.TellsZero.of_trans {α : Type} [Scalar α]
    (htrans : ∀ x y z : α, x < y → y < z → x < z) (hone : ((-1 : α) != 0) = true)
    (hpos : ∀ x : α, 0 < x → (x != 0) = true)
    (habs : ∀ t x : α, 0 ≤ t → t < Scalar.abs x → (x != 0) = true) : Scalar.TellsZero α where
  neg_one_ne_zero := hone
  ne_zero_of_pos := hpos _
  ne_zero_of_lt_abs {t x} ht h := by
    refine habs t x ht ?_
    generalize Scalar.abs x = magnitude at h
    induction h with
    | single h => exact h
    | tail _ hlast ih => exact htrans _ _ _ ih hlast

/-- Exact rationals tell zero from all other numbers. -/
instance : Scalar.TellsZero ℚ := by
  refine .of_trans (fun _ _ _ => lt_trans) (by decide) ?_ ?_
  · intro x h
    simpa using h.ne'
  · intro t x ht h
    rw [Scalar.abs_eq] at h
    simpa using abs_pos.mp (ht.trans_lt h)

/-- Doubles tell zero from all other numbers: NaN and the infinities do not pass for zero, and both
zeros do. -/
instance : Scalar.TellsZero Float where
  neg_one_ne_zero := by decide +kernel
  ne_zero_of_pos := Double.ne_zero_of_pos
  ne_zero_of_lt_abs {t x} ht h := by
    refine Double.bne_zero_iff.mpr fun s hs => ?_
    have hbase : ∀ y : Float, y < x.abs → y < 0 := by
      intro y hy
      rw [Double.lt_iff, Double.unpack_abs_of_zero hs] at hy
      rwa [Double.lt_iff, Double.unpack_zero]
    -- whatever a chain leads up from to the magnitude of a zero is negative
    have hbelow : ∀ y : Float, Relation.TransGen (· < ·) y x.abs → y < 0 := by
      intro y hy
      induction hy using Relation.TransGen.head_induction_on with
      | single hlast => exact hbase _ hlast
      | head hfirst _ ih => exact Double.lt_zero_of_lt hfirst ih
    exact Double.not_lt_zero ht (hbelow t h)

end LinProg
