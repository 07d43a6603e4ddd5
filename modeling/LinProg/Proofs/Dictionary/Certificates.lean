import LinProg.Proofs.Dictionary.PhaseOne
import LinProg.Proofs.StandardForm.Points

/-!
The dictionary in which the engine stops certifies its verdict, over the exact rationals.

* `OptimalCertificate`, `InfeasibleCertificate`, `UnboundedCertificate`: what proves that a value
  cannot be exceeded, that no point is feasible, and that the objective grows without end along a
  direction. `OptimalCertificate.objectiveAt_le`, `InfeasibleCertificate.not_isFeasible` and
  `UnboundedCertificate.isFeasible_add` say that they do.
* `optimalCertificate_of_rewrites`, `infeasibleCertificate_of_minimizes`,
  `unboundedCertificate_of_choice_eq`: where the certificates are found in a dictionary.
* `certified_verdicts`: the verdicts of both phases from the dictionary of a program.
-/

namespace LinProg

open Finset

/-! ### Certificates -/

namespace StandardForm

variable {form : StandardForm ℚ} {x y z : ℕ → ℚ} {value tolerance : ℚ} {i j : ℕ}

/-- Multipliers of the rows that cover the costs and give a value. -/
structure OptimalCertificate (form : StandardForm ℚ) (y : ℕ → ℚ) (value : ℚ) : Prop where
  nonneg : ∀ i < form.numRows, 0 ≤ y i
  cost_le : ∀ j < form.numColumns, form.c.coord j ≤ form.columnSum y j
  value_eq : form.rhsSum y + form.constant = value

/-- Multipliers of the rows that make of them a row which no nonnegative point satisfies. -/
structure InfeasibleCertificate (form : StandardForm ℚ) (y : ℕ → ℚ) (tolerance : ℚ) : Prop where
  nonneg : ∀ i < form.numRows, 0 ≤ y i
  column_nonneg : ∀ j < form.numColumns, 0 ≤ form.columnSum y j
  rhs_le : form.rhsSum y ≤ -tolerance

/-- A direction that keeps every point feasible and improves the objective. -/
structure UnboundedCertificate (form : StandardForm ℚ) (z : ℕ → ℚ) : Prop where
  nonneg : ∀ j, 0 ≤ z j
  lhs_nonpos : ∀ i < form.numRows, form.lhs i z ≤ 0
  gain : 0 < ∑ j ∈ range form.numColumns, form.c.coord j * z j

/-- The combination of the left-hand sides of the rows at a point. -/
lemma sum_mul_lhs (form : StandardForm ℚ) (y x : ℕ → ℚ) :
    ∑ i ∈ range form.numRows, y i * form.lhs i x =
      ∑ j ∈ range form.numColumns, form.columnSum y j * x j := by
  simp only [lhs, columnSum, mul_sum, sum_mul, mul_assoc]
  exact sum_comm

/-- At a feasible point the combined left-hand sides stay below the combined right-hand sides. -/
lemma IsFeasible.columnSum_le (hx : form.IsFeasible x) (hy : ∀ i < form.numRows, 0 ≤ y i) :
    ∑ j ∈ range form.numColumns, form.columnSum y j * x j ≤ form.rhsSum y := by
  rw [← sum_mul_lhs, rhsSum]
  refine sum_le_sum fun i hi => ?_
  have hi := mem_range.mp hi
  exact mul_le_mul_of_nonneg_left (hx.lhs_le i hi) (hy i hi)

/-- No feasible point exceeds a certified value. -/
theorem OptimalCertificate.objectiveAt_le (h : form.OptimalCertificate y value)
    (hx : form.IsFeasible x) : form.objectiveAt x ≤ value := by
  have hcost : ∑ j ∈ range form.numColumns, form.c.coord j * x j ≤
      ∑ j ∈ range form.numColumns, form.columnSum y j * x j := by
    refine sum_le_sum fun j hj => ?_
    have hj := mem_range.mp hj
    exact mul_le_mul_of_nonneg_right (h.cost_le j hj) (hx.nonneg j hj)
  calc form.objectiveAt x
      = form.constant + ∑ j ∈ range form.numColumns, form.c.coord j * x j := rfl
    _ ≤ form.constant + ∑ j ∈ range form.numColumns, form.columnSum y j * x j :=
        add_le_add_right hcost _
    _ ≤ form.constant + form.rhsSum y := add_le_add_right (hx.columnSum_le h.nonneg) _
    _ = value := by rw [add_comm, h.value_eq]

/-- No point is feasible where infeasibility is certified. -/
theorem InfeasibleCertificate.not_isFeasible (h : form.InfeasibleCertificate y tolerance)
    (ht : 0 < tolerance) : ¬ form.IsFeasible x := by
  intro hx
  have hcolumns : 0 ≤ ∑ j ∈ range form.numColumns, form.columnSum y j * x j := by
    refine sum_nonneg fun j hj => ?_
    have hj := mem_range.mp hj
    exact mul_nonneg (h.column_nonneg j hj) (hx.nonneg j hj)
  have hneg : (0 : ℚ) < 0 := by
    calc (0 : ℚ) ≤ ∑ j ∈ range form.numColumns, form.columnSum y j * x j := hcolumns
      _ ≤ form.rhsSum y := hx.columnSum_le h.nonneg
      _ ≤ -tolerance := h.rhs_le
      _ < 0 := neg_neg_of_pos ht
  exact lt_irrefl _ hneg

lemma lhs_add_smul (form : StandardForm ℚ) (i : ℕ) (x z : ℕ → ℚ) (t : ℚ) :
    form.lhs i (x + t • z) = form.lhs i x + t * form.lhs i z := by
  simp [lhs, mul_add, sum_add_distrib, mul_sum, mul_left_comm]

lemma objectiveAt_add_smul (form : StandardForm ℚ) (x z : ℕ → ℚ) (t : ℚ) :
    form.objectiveAt (x + t • z) =
      form.objectiveAt x + t * ∑ j ∈ range form.numColumns, form.c.coord j * z j := by
  simp [objectiveAt, mul_add, sum_add_distrib, mul_sum, mul_left_comm, add_assoc]

/-- A feasible point stays one along a certified direction. -/
theorem UnboundedCertificate.isFeasible_add (h : form.UnboundedCertificate z)
    (hx : form.IsFeasible x) {t : ℚ} (ht : 0 ≤ t) : form.IsFeasible (x + t • z) where
  nonneg j hj := add_nonneg (hx.nonneg j hj) (mul_nonneg ht (h.nonneg j))
  lhs_le i hi := by
    rw [lhs_add_smul]
    have hstep := mul_nonpos_of_nonneg_of_nonpos ht (h.lhs_nonpos i hi)
    have := hx.lhs_le i hi
    linarith

/-- Along it the objective exceeds every bound. -/
theorem UnboundedCertificate.exists_lt (h : form.UnboundedCertificate z) (hx : form.IsFeasible x)
    (bound : ℚ) : ∃ x', form.IsFeasible x' ∧ bound < form.objectiveAt x' := by
  set gain := ∑ j ∈ range form.numColumns, form.c.coord j * z j
  have hgain : 0 < gain := h.gain
  set t := max 0 ((bound - form.objectiveAt x + 1) / gain)
  refine ⟨x + t • z, h.isFeasible_add hx (le_max_left _ _), ?_⟩
  rw [objectiveAt_add_smul]
  have hstep : bound - form.objectiveAt x + 1 ≤ t * gain :=
    (div_le_iff₀ hgain).mp (le_max_right _ _)
  linarith

/-- The program that makes the double of one column, which has two bounds, as large as it can be. -/
def between (low high : ℚ) : StandardForm ℚ := ⟨⟨2, 1, #[-1, 1]⟩, #[-low, high], #[2], 5⟩

/-- The program that makes the double of one column with a lower bound as large as it can be. -/
def above (low : ℚ) : StandardForm ℚ := ⟨⟨1, 1, #[-1]⟩, #[-low], #[2], 5⟩

end StandardForm

/-! ### Certificates in a dictionary -/

namespace Dictionary

open StandardForm

variable {form : StandardForm ℚ} {tolerance : ℚ} {d last left ready : Dictionary ℚ} {e j : ℕ}

/-- The objective of a program as any rewriting of its dictionary combines it from the rows. -/
lemma objective_of_rewrites (h : Rewrites (ofStandardForm form tolerance) d) :
    form.constant = d.constant - form.rhsSum (d.multiplier form) ∧
      ∀ j < form.numColumns,
        form.c.coord j = d.c.coord j + form.columnSum (d.multiplier form) j := by
  have hsize : d.numVariables = form.numColumns + form.numRows :=
    h.equivalent.numVariables_eq.trans numVariables_ofStandardForm
  refine affine_ext fun x => ?_
  rw [← valueAt_point hsize.ge, h.equivalent.valueAt_eq (solves_point form tolerance x),
    valueAt_ofStandardForm, objectiveAt_congr fun j hj => point_column hj 0]
  rfl

/-- With the auxiliary variable attached, any rewriting combines the zero objective from the rows:
the negated auxiliary variable is zero at every point of the program. -/
lemma objective_of_rewrites_withAuxiliary
    (h : Rewrites (ofStandardForm form tolerance).withAuxiliary d) :
    0 = d.constant - form.rhsSum (d.multiplier form) ∧
      ∀ j < form.numColumns, 0 = d.c.coord j + form.columnSum (d.multiplier form) j := by
  have hsize : d.numVariables = form.numColumns + form.numRows + 1 := by
    rw [numVariables_attached h, numVariables_ofStandardForm]
  refine affine_ext fun x => ?_
  rw [← valueAt_point (hsize ▸ Nat.le_succ _),
    h.equivalent.valueAt_eq (solves_withAuxiliary_point form tolerance x 0),
    valueAt_withAuxiliary, numVariables_ofStandardForm, point_beyond le_rfl]
  simp

/-- Where no cost of a rewriting is positive, the costs of the slacks certify its constant. -/
theorem optimalCertificate_of_rewrites (h : Rewrites (ofStandardForm form tolerance) d)
    (hc : ∀ j, d.isNonbasic j → d.c.coord j ≤ 0) :
    form.OptimalCertificate (d.multiplier form) d.constant := by
  have hsize : d.numVariables = form.numColumns + form.numRows :=
    h.equivalent.numVariables_eq.trans numVariables_ofStandardForm
  obtain ⟨hconstant, hcost⟩ := objective_of_rewrites h
  refine ⟨fun i hi => ?_, fun j hj => ?_, ?_⟩
  · exact neg_nonneg.mpr (coord_c_nonpos h.wellFormed hc (by omega))
  · have := coord_c_nonpos h.wellFormed hc (show j < d.numVariables by omega)
    have := hcost j hj
    linarith
  · linarith

/-- Where the least value of the auxiliary variable reaches the tolerance, the costs of the slacks
certify that no point is feasible. -/
theorem infeasibleCertificate_of_minimizes (hmin : Minimizes (ofStandardForm form tolerance) d)
    (hreach : tolerance ≤ d.b.coord (ofStandardForm form tolerance).numVariables) :
    form.InfeasibleCertificate (d.multiplier form) tolerance := by
  have hsize : d.numVariables = form.numColumns + form.numRows + 1 := by
    rw [numVariables_attached hmin.rewrites, numVariables_ofStandardForm]
  obtain ⟨hconstant, hcost⟩ := objective_of_rewrites_withAuxiliary hmin.rewrites
  refine ⟨fun i hi => ?_, fun j hj => ?_, ?_⟩
  · exact neg_nonneg.mpr (coord_c_nonpos hmin.rewrites.wellFormed hmin.cost_nonpos (by omega))
  · have := coord_c_nonpos hmin.rewrites.wellFormed hmin.cost_nonpos
      (show j < d.numVariables by omega)
    have := hcost j hj
    linarith
  · have := constant_attached hmin.rewrites
    linarith

/-- Where a variable improves the objective and no row limits it, its direction certifies that the
objective grows without end. -/
theorem unboundedCertificate_of_choice_eq (h : Rewrites (ofStandardForm form tolerance) d)
    (hchoice : d.choice = .unbounded e) : form.UnboundedCertificate (d.ray e) := by
  obtain ⟨henter, hlimit⟩ := choice_eq_unbounded_iff.mp hchoice
  have hback := h.equivalent.symm
  refine ⟨ray_nonneg hlimit, fun i hi => ?_, ?_⟩
  · have hrow := hback.rowSum_ray h.wellFormed henter.isNonbasic
      (isBasic_ofStandardForm.mpr (show _ ∧ form.numColumns + i < _ by omega))
    rw [rowSum_ofStandardForm hi] at hrow
    rw [hrow]
    exact neg_nonpos.mpr (ray_nonneg hlimit _)
  · have hcost := hback.costSum_ray h.wellFormed henter.isNonbasic
    rw [costSum_ofStandardForm] at hcost
    rw [hcost]
    exact henter.cost_pos

/-! ### The verdicts -/

/-- Every verdict from the dictionary of a program is certified by the dictionary it is given in.
An optimum after a successful phase one is proved by the negated costs of the slacks, which also
prove the failure of phase one. A variable without limit, in any dictionary that pivots reach after
a successful phase one, proves by its direction that there is no optimum. -/
theorem certified_verdicts (form : StandardForm ℚ) (tolerance : ℚ) (limit₁ : ℕ) :
    (∀ ready last limit₂,
      ((ofStandardForm form tolerance).phaseOneWithin limit₁).result = .ok (true, ready) →
      (ready.simplexWithin limit₂).result = .ok (.optimal, last) →
        form.OptimalCertificate (fun i => -last.c.coord (form.numColumns + i)) last.constant) ∧
    (∀ left,
      ((ofStandardForm form tolerance).phaseOneWithin limit₁).result = .ok (false, left) →
        form.InfeasibleCertificate (fun i => -left.c.coord (form.numColumns + i)) tolerance) ∧
    (∀ ready last e,
      ((ofStandardForm form tolerance).phaseOneWithin limit₁).result = .ok (true, ready) →
      Relation.ReflTransGen Pivots ready last → last.choice = .unbounded e →
        form.UnboundedCertificate (last.ray e)) ∧
    (∀ ready last limit₂,
      ((ofStandardForm form tolerance).phaseOneWithin limit₁).result = .ok (true, ready) →
      (ready.simplexWithin limit₂).result = .ok (.unbounded, last) →
        Relation.ReflTransGen Pivots ready last ∧ ∃ e, last.choice = .unbounded e) := by
  have hfresh := wellFormed_ofStandardForm form tolerance
  refine ⟨?_, ?_, ?_, ?_⟩
  · intro ready last limit₂ hready hlast
    have hrewrites := of_phaseOneWithin_eq_true hfresh hready
    obtain ⟨k, -, hstops, rfl⟩ := exists_stopsAfter hlast
    exact optimalCertificate_of_rewrites
      (hrewrites.trans (rewrites_iterate hrewrites.wellFormed k))
      (outcome?_eq_optimal_iff.mp hstops.outcome_eq)
  · intro left hleft
    obtain ⟨hmin, hreach⟩ := of_phaseOneWithin_eq_false hfresh hleft
    exact infeasibleCertificate_of_minimizes hmin hreach
  · intro ready last e hready hlast hchoice
    have hrewrites := of_phaseOneWithin_eq_true hfresh hready
    exact unboundedCertificate_of_choice_eq
      (hrewrites.trans (rewrites_of_pivots hrewrites.wellFormed hlast)) hchoice
  · intro ready last limit₂ hready hlast
    obtain ⟨k, -, hstops, rfl⟩ := exists_stopsAfter hlast
    exact ⟨pivots_reach_iterate ready k, outcome?_eq_unbounded_iff.mp hstops.outcome_eq⟩

/-- A column between one and three, one that would have to be at least two and at most one, and one
that is at least one show the three verdicts. -/
theorem certified_verdicts_one_column :
    (∃ ready last,
      ((ofStandardForm (between 1 3) (1 / 10)).phaseOneWithin 9).result = .ok (true, ready) ∧
      (ready.simplexWithin 9).result = .ok (.optimal, last) ∧
      (between 1 3).OptimalCertificate (fun i => -last.c.coord (1 + i)) last.constant) ∧
    (∃ left,
      ((ofStandardForm (between 2 1) (1 / 10)).phaseOneWithin 9).result = .ok (false, left) ∧
      (between 2 1).InfeasibleCertificate (fun i => -left.c.coord (1 + i)) (1 / 10)) ∧
    (∃ ready last e,
      ((ofStandardForm (above 1) (1 / 10)).phaseOneWithin 9).result = .ok (true, ready) ∧
      (ready.simplexWithin 9).result = .ok (.unbounded, last) ∧ last.choice = .unbounded e ∧
      (above 1).UnboundedCertificate (last.ray e)) := by
  refine ⟨⟨_, _, by cbv, by cbv, ?_⟩, ⟨_, by cbv, ?_⟩, ⟨_, _, _, by cbv, by cbv, by cbv, ?_⟩⟩
  · exact (certified_verdicts (between 1 3) (1 / 10) 9).1 _ _ 9 (by cbv) (by cbv)
  · exact (certified_verdicts (between 2 1) (1 / 10) 9).2.1 _ (by cbv)
  · exact (certified_verdicts (above 1) (1 / 10) 9).2.2.1 _ _ _ (by cbv) .refl (by cbv)

end Dictionary

end LinProg
