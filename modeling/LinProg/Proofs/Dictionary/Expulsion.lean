import LinProg.Proofs.Dictionary.Certificates
import LinProg.Proofs.Dictionary.Requests

/-!
The auxiliary variable can always be dropped, over the exact rationals.

* `Visits.rewrites`: while the auxiliary variable is there, a run of both phases only rewrites the
  dictionary that it was added to.
* `Visits.not_isBasic_of_dropping`, `Remains.eq_pivotLimit`: it is nonbasic when it is to be
  dropped, so that a run can only break off by using up its pivots.
* `auxiliary_expelled`: what its row looks like in any dictionary that pivots reach, and what
  expelling it leads to.
-/

namespace LinProg

open Finset StandardForm

lemma Stage.next_eq_dropping_iff {stage : Stage} :
    stage.next = dropping ↔ stage = expelling ∨ stage = dropping := by
  cases stage <;> simp [next]

namespace Dictionary

/-! ### In a run -/

section Run

variable {d r : Dictionary ℚ} {stage : Stage} {fault : Fault} (hd : d.WellFormed)
include hd

/-- While the auxiliary variable is there, every dictionary of a run rewrites the one that it was
added to. -/
lemma Visits.rewrites (h : d.Visits stage r) (hextra : stage.extra = 1) :
    Rewrites d.withAuxiliary r := by
  induction h with
  | given => cases hextra
  | pass _ => cases hextra
  | drop _ _ => cases hextra
  | attach _ => exact .refl hd.withAuxiliary
  | pivot _ _ hpivot ih =>
      rw [Stage.extra_next] at hextra
      obtain ⟨hlegal, rfl⟩ := pivot_result_eq_ok.mp hpivot
      exact (ih hextra).trans (hlegal.rewrites (ih hextra).wellFormed)
  | close _ _ _ ih => exact ih rfl
  | keep _ _ ih => exact ih rfl

variable (ht : 0 ≤ d.tolerance) (htm : d.tolerance * d.numRows < 1)
include htm

/-- When it is to be dropped, the auxiliary variable has left by the pivot that was asked for, or no
pivot was asked for because it was not basic. -/
theorem Visits.not_isBasic_of_dropping (h : d.Visits stage r) (hstage : stage = .dropping) :
    ¬ r.isBasic d.numVariables := by
  cases h with
  | @pivot stage r _ e l h hrequest hpivot =>
      obtain rfl | rfl := Stage.next_eq_dropping_iff.mp hstage
      · -- the only pivot that is asked for here has the auxiliary variable leave
        obtain ⟨hlegal, rfl⟩ := pivot_result_eq_ok.mp hpivot
        have hl : l = d.numVariables := by
          rw [Stage.request?, h.last_eq hd rfl] at hrequest
          split at hrequest
          · obtain ⟨j, -, hj⟩ := Option.map_eq_some_iff.mp hrequest
            exact (Prod.mk.inj hj).2.symm
          · cases hrequest
        subst hl
        exact not_isBasic_of_isNonbasic
          ((isNonbasic_exchange hlegal.isNonbasic hlegal.isBasic).mpr (.inl rfl))
      · cases hrequest
  | keep h hdone =>
      -- a basic one would have a coefficient beyond the tolerance, and a pivot would be asked for
      intro hbasic
      rw [Stage.request?, h.last_eq hd rfl, hbasic, if_pos rfl, Option.map_eq_none_iff] at hdone
      obtain ⟨j, hsteep⟩ := exists_steepest (h.rewrites hd rfl) hd htm hbasic
      rw [hdone] at hsteep
      cases hsteep
  | _ => cases hstage

/-- The only thing that can go wrong is that the loop uses up its pivots. -/
lemma Remains.eq_pivotLimit (h : d.Remains fault) : fault = .pivotLimit := by
  cases h with
  | auxiliaryBasic h hbasic => exact absurd hbasic (h.not_isBasic_of_dropping hd htm rfl)
  | pivotLimit => rfl

include ht

/-- Neither phase breaks off but where its loop uses up its pivots. -/
lemma solveWithin_error {limit₁ limit₂ : ℕ}
    (h : (d.solveWithin limit₁ limit₂).result = .error fault) : fault = .pivotLimit :=
  ((meets_solveWithin hd ht limit₁ limit₂).fault fault h).eq_pivotLimit hd htm

end Run

/-! ### In any dictionary -/

section Attached

variable {d r driven : Dictionary ℚ} (h : Rewrites d.withAuxiliary r)
include h

/-- In the row of the auxiliary variable only nonbasic variables have coefficients. -/
lemma sum_auxiliary_row_nonbasic (hd : d.WellFormed) (hbasic : r.isBasic d.numVariables) :
    ∑ j ∈ d.basis with r.isNonbasic j, r.a.get d.numVariables j = -1 := by
  rw [← sum_auxiliary_row h hd hbasic]
  refine sum_filter_of_ne fun j hj hne => ?_
  have hjn : j < r.numVariables := (isBasic_lt (mem_basis.mp hj)).trans (auxiliary_lt h)
  rw [isNonbasic_iff_not_isBasic hjn]
  exact fun hb => hne (h.wellFormed.get_of_isBasic (isBasic_lt hbasic) hb)

/-- Expelling the auxiliary variable at zero moves no value. -/
lemma basicSolution_expelAuxiliary (hout : r.expelAuxiliary.result = .ok driven)
    (hzero : r.b.coord d.numVariables = 0) : driven.basicSolution = r.basicSolution := by
  obtain rfl | ⟨j, hlegal, rfl⟩ := expelAuxiliary_cases h hout
  · rfl
  · exact basicSolution_eq h.wellFormed
      (h.wellFormed.exchange hlegal.isNonbasic hlegal.isBasic) (numVariables_exchange r _ _)
      fun i hi => coord_b_exchange_of_degenerate h.wellFormed hlegal.isNonbasic hzero hi

end Attached

/-! ### The dictionary of a program -/

/-- Whatever pivots are made after the auxiliary variable was added to the dictionary of a program,
its coefficients of the nonbasic slacks sum to minus one while it is basic, so that one of them is
at least one over the number of rows in magnitude. Below that, a tolerance always lets it be
expelled: by a pivot on a coefficient that is not zero, after which it can be dropped, and which
moves no variable where it is zero. Hence a run of both phases never breaks off at that point. -/
theorem auxiliary_expelled (form : StandardForm ℚ) (tolerance : ℚ) :
    (∀ r, Relation.ReflTransGen Pivots (ofStandardForm form tolerance).withAuxiliary r →
      (r.isBasic (form.numColumns + form.numRows) →
        (∑ j ∈ Ico form.numColumns (form.numColumns + form.numRows) with r.isNonbasic j,
          r.a.get (form.numColumns + form.numRows) j) = -1 ∧
        ∃ j ∈ Ico form.numColumns (form.numColumns + form.numRows), r.isNonbasic j ∧
          1 / form.numRows ≤ |r.a.get (form.numColumns + form.numRows) j|) ∧
      (0 ≤ tolerance → tolerance < 1 / form.numRows →
        ∃ driven ready, r.expelAuxiliary.result = .ok driven ∧
          driven.isNonbasic (form.numColumns + form.numRows) ∧
          driven.withoutAuxiliary (ofStandardForm form tolerance) = .ok ready ∧
          (r.isBasic (form.numColumns + form.numRows) → ∃ j, r.isNonbasic j ∧
            r.a.get (form.numColumns + form.numRows) j ≠ 0 ∧
            (r.pivot j (form.numColumns + form.numRows)).result = .ok driven) ∧
          (r.isNonbasic (form.numColumns + form.numRows) → driven = r) ∧
          (r.b.coord (form.numColumns + form.numRows) = 0 →
            driven.basicSolution = r.basicSolution))) ∧
    (0 ≤ tolerance → tolerance < 1 / form.numRows → ∀ limit₁ limit₂ fault,
      ((ofStandardForm form tolerance).solveWithin limit₁ limit₂).result = .error fault →
        fault = .pivotLimit) := by
  have hd := wellFormed_ofStandardForm form tolerance
  have hx₀ : (ofStandardForm form tolerance).numVariables = form.numColumns + form.numRows :=
    numVariables_ofStandardForm
  have hscale : 0 ≤ tolerance → tolerance < 1 / form.numRows → tolerance * form.numRows < 1 := by
    intro ht hlt
    have hrows : (0 : ℚ) < form.numRows := one_div_pos.mp (ht.trans_lt hlt)
    exact (lt_div_iff₀ hrows).mp hlt
  rw [← hx₀]
  refine ⟨fun r hreach => ?_, fun ht hlt limit₁ limit₂ fault => ?_⟩
  · have hr := rewrites_of_pivots hd.withAuxiliary hreach
    refine ⟨fun hbasic => ?_, fun ht hlt => ?_⟩
    · have hslacks : Ico form.numColumns (ofStandardForm form tolerance).numVariables =
          (ofStandardForm form tolerance).basis := by
        rw [hx₀, basis_ofStandardForm]
      rw [hslacks]
      exact ⟨sum_auxiliary_row_nonbasic hr hd hbasic, exists_auxiliary_coefficient hr hd hbasic⟩
    · have htm := hscale ht hlt
      obtain ⟨driven, hout, hlast⟩ := exists_expelAuxiliary hr hd ht htm
      refine ⟨driven, _, hout, hlast,
        withoutAuxiliary_eq_ok_iff.mpr ⟨not_isBasic_of_isNonbasic hlast, rfl⟩, fun hbasic => ?_,
        fun hn => ?_, basicSolution_expelAuxiliary hr hout⟩
      · obtain ⟨j, hlegal, hexchange⟩ := exists_legalPivot_expelAuxiliary hr hd ht htm hbasic
        obtain rfl : r.exchange j _ = driven := Except.ok.inj (hexchange.symm.trans hout)
        exact ⟨j, hlegal.isNonbasic, hlegal.coefficient_ne_zero,
          pivot_result_eq_ok.mpr ⟨hlegal, rfl⟩⟩
      · exact (Except.ok.inj ((expelAuxiliary_of_isNonbasic hr hn).symm.trans hout)).symm
  · exact solveWithin_error hd ht (hscale ht hlt)

/-- For a column that has to be exactly one, two pivots make the auxiliary variable basic at
zero. -/
def degenerate : Dictionary ℚ :=
  ((ofStandardForm (between 1 1) (1 / 10)).withAuxiliary.exchange 3 1).exchange 0 2

/-- The auxiliary variable leaves from there without a change of the values. -/
theorem auxiliary_expelled_degenerate :
    Relation.ReflTransGen Pivots (ofStandardForm (between 1 1) (1 / 10)).withAuxiliary degenerate ∧
    degenerate.isBasic 3 ∧ degenerate.b.coord 3 = 0 ∧ (∃ j, 1 / 2 ≤ |degenerate.a.get 3 j|) ∧
    ∃ driven, degenerate.expelAuxiliary.result = .ok driven ∧ driven.isNonbasic 3 ∧
      driven.basicSolution = degenerate.basicSolution := by
  have henter : (ofStandardForm (between 1 1) (1 / 10)).withAuxiliary.LegalPivot 3 1 := by
    constructor <;> decide +kernel
  have hstep : ((ofStandardForm (between 1 1) (1 / 10)).withAuxiliary.exchange 3 1).LegalPivot
      0 2 := by
    constructor <;> decide +kernel
  have hreach : Relation.ReflTransGen Pivots
      (ofStandardForm (between 1 1) (1 / 10)).withAuxiliary degenerate :=
    .tail (.single ⟨3, 1, pivot_result_eq_ok.mpr ⟨henter, rfl⟩⟩)
      ⟨0, 2, pivot_result_eq_ok.mpr ⟨hstep, rfl⟩⟩
  have hbasic : degenerate.isBasic 3 := by decide +kernel
  have hzero : degenerate.b.coord 3 = 0 := by decide +kernel
  obtain ⟨hrow, hexpel⟩ := (auxiliary_expelled (between 1 1) (1 / 10)).1 degenerate hreach
  obtain ⟨-, j, -, -, hj⟩ := hrow hbasic
  obtain ⟨driven, -, hout, hlast, -, -, -, hsame⟩ := hexpel (by norm_num) (by decide +kernel)
  exact ⟨hreach, hbasic, hzero, ⟨j, hj⟩, driven, hout, hlast, hsame hzero⟩

end Dictionary

end LinProg
