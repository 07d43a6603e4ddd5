import Mathlib
import LinProg.Scalar

/-!
Signs of doubles.

* `Double.toModel_neg`: a negation changes the sign of what the bits of a double stand for, and
  nothing else.
* `Double.neg_one_mul`, `Double.neg_neg`: minus one times a double is one times its negation, and
  two negations cancel. Zeros, infinities and NaN are no exceptions.
* `Double.bne_zero_iff`, `Double.ne_zero_of_pos`, `Double.lt_zero_of_lt`: which doubles pass for
  zero, and what comparisons with zero say.
-/

namespace LinProg.Double

open Float.Model (Format)
open Float.Model.UnpackedFloat

/-! ### Bits -/

section Bits

variable (bits : BitVec Format.binary64.numBits)

/-- Reading, writing and reading again is reading once: only NaN has more than one writing. -/
lemma unpack_pack_unpack :
    unpack .binary64 (pack .binary64 (unpack .binary64 bits)) = unpack .binary64 bits := by
  rw [pack_unpack]
  split_ifs with hnan
  · rw [unpack_packedNaN]
    obtain ⟨hexponent, hmantissa⟩ := of_decide_eq_true hnan
    rw [unpack, if_pos hexponent, if_neg hmantissa]
  · rfl

/-- The sign bit is the sign, whatever the other bits are. -/
lemma unpack_packComponents_neg (s : Sign) (exponent : BitVec 11) (mantissa : BitVec 52) :
    unpack .binary64 (packComponents .binary64 (-s) exponent mantissa) =
      (unpack .binary64 (packComponents .binary64 s exponent mantissa)).neg := by
  simp only [unpack, unpackMantissa_packComponents, unpackExponent_packComponents,
    unpackSign_packComponents, Sign.ofBitVec_toBitVec]
  split_ifs <;> rfl

/-- A negated number is written and read back without loss. -/
lemma unpack_pack_neg :
    unpack .binary64 (pack .binary64 (unpack .binary64 bits).neg) =
      (unpack .binary64 bits).neg := by
  -- what is negated is what the bits with the other sign bit stand for
  have hflip := unpack_packComponents_neg (Sign.ofBitVec (unpackSign bits)) (unpackExponent bits)
    (unpackMantissa bits)
  rw [packComponents_unpackSign_unpackExponent_unpackMantissa] at hflip
  rw [← hflip, unpack_pack_unpack]

end Bits

/-! ### Doubles -/

/-- A negation changes the sign of what the bits stand for. -/
lemma toModel_neg (x : Float) : (-x).toModel.unpack = x.toModel.unpack.neg :=
  unpack_pack_neg x.toModel.toBits.toBitVec

/-- A double is given by what its bits stand for. -/
lemma eq_of_unpack_eq {x y : Float} (h : x.toModel.unpack = y.toModel.unpack) : x = y := by
  have hpacked := congrArg (pack .binary64) h
  change pack .binary64 (unpack .binary64 x.toModel.toBits.toBitVec) =
    pack .binary64 (unpack .binary64 y.toModel.toBits.toBitVec) at hpacked
  rw [pack_unpack_of_valid x.toModel.valid (by decide),
    pack_unpack_of_valid y.toModel.valid (by decide)] at hpacked
  exact Float.toBits_inj.mp (UInt64.toBitVec_inj.mp hpacked)

/-- Two negations cancel. -/
lemma neg_neg (x : Float) : - -x = x := by
  refine eq_of_unpack_eq ?_
  rw [toModel_neg, toModel_neg]
  cases x.toModel.unpack with
  | notANumber => rfl
  | infinity s => cases s <;> rfl
  | zero s => cases s <;> rfl
  | finite s mantissa exponent hpos => cases s <;> rfl

/-- Minus one times a double is one times its negation. -/
lemma neg_one_mul (w : Float) : -1 * w = 1 * -w := by
  have hone : (1 : Float).toModel.unpack = .finite .positive (2 ^ 52) (-52) (by decide) := rfl
  -- both products round the same exact product; only the sign is found in another place
  have hproduct : mul .binary64 (1 : Float).toModel.unpack.neg w.toModel.unpack =
      mul .binary64 (1 : Float).toModel.unpack w.toModel.unpack.neg := by
    rw [hone]
    cases w.toModel.unpack with
    | notANumber => rfl
    | infinity s => cases s <;> rfl
    | zero s => cases s <;> rfl
    | finite s mantissa exponent hpos => cases s <;> rfl
  rw [← toModel_neg, ← toModel_neg] at hproduct
  exact congrArg (fun product => (⟨Float.Model.pack product⟩ : Float)) hproduct

/-! ### Comparisons with zero -/

lemma lt_iff {x y : Float} : x < y ↔ x.toModel.unpack.lt y.toModel.unpack = true :=
  decide_eq_true_iff (p := x.toModel < y.toModel)

lemma le_iff {x y : Float} : x ≤ y ↔ x.toModel.unpack.le y.toModel.unpack = true :=
  decide_eq_true_iff (p := x.toModel ≤ y.toModel)

lemma unpack_zero : (0 : Float).toModel.unpack = .zero .positive := rfl

/-- A double passes for zero where its bits stand for a zero of either sign. -/
lemma beq_zero_iff {x : Float} : (x == 0) = true ↔ ∃ s, x.toModel.unpack = .zero s := by
  change x.toModel.unpack.beq (0 : Float).toModel.unpack = true ↔ _
  rw [unpack_zero]
  cases x.toModel.unpack with
  | notANumber => exact iff_of_false (by decide) (by simp)
  | infinity s => cases s <;> exact iff_of_false (by decide) (by simp)
  | zero s => exact iff_of_true rfl ⟨s, rfl⟩
  | finite s mantissa exponent hpos => cases s <;> exact iff_of_false (by rintro ⟨⟩) (by simp)

lemma bne_zero_iff {x : Float} : (x != 0) = true ↔ ∀ s, x.toModel.unpack ≠ .zero s := by
  rw [show (x != 0) = !(x == 0) from rfl, Bool.not_eq_true', ← Bool.not_eq_true, beq_zero_iff,
    not_exists]

/-- A positive double does not pass for zero. -/
lemma ne_zero_of_pos {x : Float} (h : 0 < x) : (x != 0) = true := by
  rw [lt_iff, unpack_zero] at h
  refine bne_zero_iff.mpr fun s hs => ?_
  rw [hs] at h
  cases h

/-- The magnitude of a zero is the positive zero. -/
lemma unpack_abs_of_zero {x : Float} {s : Sign} (h : x.toModel.unpack = .zero s) :
    x.abs.toModel.unpack = .zero .positive := by
  have habs : (Float.Model.pack (.zero .positive)).unpack = .zero .positive := rfl
  change (Float.Model.pack x.toModel.unpack.abs).unpack = .zero .positive
  rw [h]
  exact habs

/-- A double that is at least zero is not below zero. -/
lemma not_lt_zero {x : Float} (h : 0 ≤ x) : ¬ x < 0 := by
  intro hlt
  rw [le_iff, unpack_zero] at h
  rw [lt_iff, unpack_zero] at hlt
  generalize x.toModel.unpack = x at h hlt
  cases x with
  | notANumber => cases h
  | zero s => cases hlt
  | infinity s =>
      cases s with
      | negative => cases h
      | positive => cases hlt
  | finite s _ _ _ =>
      cases s with
      | negative => cases h
      | positive => cases hlt

/-- What lies below a negative double is negative. -/
lemma lt_zero_of_lt {x y : Float} (h : x < y) (hy : y < 0) : x < 0 := by
  rw [lt_iff] at *
  rw [unpack_zero] at *
  generalize x.toModel.unpack = x at *
  generalize y.toModel.unpack = y at *
  cases y with
  | notANumber => cases hy
  | zero s => cases hy
  | infinity s =>
      cases s with
      | positive => cases hy
      | negative =>
          -- nothing lies below the negative infinity
          cases x with
          | infinity s => cases s <;> cases h
          | _ => cases h
  | finite s _ _ _ =>
      cases s with
      | positive => cases hy
      | negative =>
          cases x with
          | notANumber => cases h
          | zero s => cases h
          | infinity s =>
              cases s with
              | positive => cases h
              | negative => rfl
          | finite s _ _ _ =>
              cases s with
              | positive => cases h
              | negative => rfl

end LinProg.Double
