import LinProg.Proofs.Dictionary.Balance
import LinProg.Proofs.Dictionary.Feasibility
import LinProg.Proofs.Solver

/-!
What becomes of a program with a feasible point at any tolerance, over the exact rationals.

* `Dictionary.conclusion`: what phase one makes of the dictionary that its loop ends in.
* `phaseOneWithin_eq_ok_or_auxiliaryBasic`: phase one can fail by nothing else than an auxiliary
  variable that is still basic, and only with a tolerance of at least one over the number of rows.
* `exists_solve_of_nonpos`: without a positive tolerance, a negative right-hand side is all that it
  takes to be infeasible.
* `StandardForm.pinned`: programs in which the auxiliary variable stays basic at every such
  tolerance.
* `Solver.feasible_programs`: the three together.
-/

namespace LinProg

open Finset StandardForm

/-! ### The end of phase one -/

namespace Dictionary

section Conclusion

variable {d r : Dictionary ℚ} {k limit : ℕ} {outcome : Outcome} {fault : Fault}

/-- What phase one makes of the dictionary `r` that its loop ends in. -/
def conclusion (d r : Dictionary ℚ) : Except Fault (Bool × Dictionary ℚ) :=
  if r.tolerance ≤ |r.constant| then .ok (false, r)
  else r.expelAuxiliary.result.bind fun driven =>
    (driven.withoutAuxiliary d).bind fun ready => .ok (true, ready)

lemma phaseOneWithin_eq_conclusion (hd : d.WellFormed) (hlow : d.lowestRow? = some k)
    (hloop : ((d.entered k).simplexWithin limit).result = .ok (outcome, r)) :
    (d.phaseOneWithin limit).result = d.conclusion r := by
  have hpivot : (d.withAuxiliary.pivot d.numVariables k).result = .ok (d.entered k) :=
    pivot_result_eq_ok.mpr ⟨legalPivot_withAuxiliary hd (of_lowestRow?_eq_some hlow).1, rfl⟩
  simp only [phaseOneWithin, hlow, Traced.result_bind, Traced.result_emit, hpivot, hloop,
    Except.bind, Scalar.abs_eq, conclusion]
  split_ifs
  · rfl
  · simp only [Traced.result_bind, Traced.result_emit, Traced.result_pure, Except.bind]
    rfl

/-- The auxiliary variable is only expelled where that is possible. -/
lemma exists_expelAuxiliary_eq_ok (h : Rewrites d.withAuxiliary r) (ht : 0 ≤ d.tolerance) :
    ∃ driven, r.expelAuxiliary.result = .ok driven := by
  rw [expelAuxiliary_result h]
  split
  next j hbasic hsteep =>
    exact ⟨_, pivot_result_eq_ok.mpr
      ⟨legalPivot_of_steepest?_eq_some (h.tolerance_eq.symm ▸ ht) hbasic hsteep, rfl⟩⟩
  next => exact ⟨r, rfl⟩

lemma withoutAuxiliary_of_isBasic (h : r.isBasic d.numVariables) :
    r.withoutAuxiliary d = .error .auxiliaryBasic := by
  simp [withoutAuxiliary, h, Fault.unless, bind, Except.bind]

/-- Phase one comes to a verdict, or the auxiliary variable is still basic when it is to be dropped.
The tolerance is then at least one over the number of rows. -/
theorem phaseOneWithin_eq_ok_or_auxiliaryBasic (hd : d.WellFormed) (ht : 0 ≤ d.tolerance)
    (hlimit : (d.numVariables + 1).choose d.numRows ≤ limit) :
    (∃ found ready, (d.phaseOneWithin limit).result = .ok (found, ready)) ∨
      (d.phaseOneWithin limit).result = .error .auxiliaryBasic ∧ 1 ≤ d.tolerance * d.numRows := by
  rcases lt_or_ge (d.tolerance * d.numRows) 1 with htm | htm
  · exact .inl (exists_phaseOneWithin hd ht htm hlimit)
  cases hlow : d.lowestRow? with
  | none =>
      have hf : d.Feasible := lowestRow?_eq_none_iff.mp hlow
      exact .inl ⟨true, d, congrArg Traced.result (phaseOneWithin_of_feasible hf limit)⟩
  | some k =>
      obtain ⟨outcome, r, hloop⟩ := exists_simplexWithin_entered hd hlow hlimit
      have hmin := minimizes_of_simplexWithin_eq_ok hd hlow hloop
      obtain ⟨driven, hdriven⟩ := exists_expelAuxiliary_eq_ok hmin.rewrites ht
      rw [phaseOneWithin_eq_conclusion hd hlow hloop, conclusion, hdriven]
      split_ifs
      · exact .inl ⟨false, r, rfl⟩
      · by_cases hbasic : driven.isBasic d.numVariables
        · refine .inr ⟨?_, htm⟩
          simp [Except.bind, withoutAuxiliary_of_isBasic hbasic]
        · refine .inl ⟨true, driven.restore d, ?_⟩
          simp [Except.bind, withoutAuxiliary_eq_ok_iff.mpr ⟨hbasic, rfl⟩]

/-- Where phase one breaks off, so does the whole run. -/
lemma solveWithin_eq_error {limit₁ : ℕ} (h : (d.phaseOneWithin limit₁).result = .error fault)
    (limit₂ : ℕ) : (d.solveWithin limit₁ limit₂).result = .error fault := by
  simp [solveWithin, h, Except.bind]

end Conclusion

/-! ### A positive tolerance, and none -/

section Tolerances

variable {form : StandardForm ℚ} {tolerance : ℚ}

/-- A program with a feasible point is solved at every positive tolerance, unless the auxiliary
variable cannot be dropped. -/
lemma solve_eq_ok_or_auxiliaryBasic (ht : 0 < tolerance) (hx : ∃ x, form.IsFeasible x) :
    (∃ s last, (ofStandardForm form tolerance).solve.result = .ok (s, last) ∧ s.Answers form ∧
        s.status ≠ .infeasible) ∨
      (ofStandardForm form tolerance).solve.result = .error .auxiliaryBasic ∧
        1 ≤ tolerance * form.numRows := by
  obtain ⟨x, hx⟩ := hx
  obtain ⟨found, ready, hphase⟩ | ⟨hphase, hreach⟩ := phaseOneWithin_eq_ok_or_auxiliaryBasic
    (wellFormed_ofStandardForm form tolerance) ht.le (choose_le_pivotLimit_withAuxiliary _)
  · obtain ⟨rfl, -, hf⟩ := of_isFeasible ht hx hphase
    have hlimit := choose_le_pivotLimit (ofStandardForm form tolerance)
    rw [numVariables_ofStandardForm] at hlimit
    obtain ⟨k, outcome, -, -, hsolve, hanswers⟩ :=
      exists_solveWithin_of_phaseOneWithin hphase hf hlimit
    exact .inl ⟨_, _, hsolve, hanswers⟩
  · exact .inr ⟨solveWithin_eq_error hphase _, hreach⟩

/-- Without a positive tolerance phase one never succeeds, so that a program is solved exactly where
phase one has nothing to do. -/
lemma exists_solve_of_nonpos (form : StandardForm ℚ) (ht : tolerance ≤ 0) :
    ∃ s last, (ofStandardForm form tolerance).solve.result = .ok (s, last) ∧
      (s.status = .infeasible ↔ ∃ i < form.numRows, form.b.coord i < 0) ∧
      (s.status ≠ .infeasible → s.Answers form) := by
  have hfresh := wellFormed_ofStandardForm form tolerance
  cases hlow : (ofStandardForm form tolerance).lowestRow? with
  | none =>
      have hf : (ofStandardForm form tolerance).Feasible := lowestRow?_eq_none_iff.mp hlow
      have hlimit := choose_le_pivotLimit (ofStandardForm form tolerance)
      rw [numVariables_ofStandardForm] at hlimit
      obtain ⟨k, outcome, -, -, hsolve, hanswers, hstatus⟩ := exists_solveWithin_of_phaseOneWithin
        (congrArg Traced.result (phaseOneWithin_of_feasible hf _)) hf hlimit
      refine ⟨_, _, hsolve, iff_of_false hstatus ?_, fun _ => hanswers⟩
      rintro ⟨i, hi, hneg⟩
      have hb := hf (form.numColumns + i) (isBasic_ofStandardForm.mpr (by omega))
      rw [coord_b_ofStandardForm, if_pos (by omega), Nat.add_sub_cancel_left] at hb
      exact absurd hneg (not_lt.mpr hb)
  | some k =>
      obtain ⟨hk, hneg, -⟩ := of_lowestRow?_eq_some hlow
      obtain ⟨outcome, r, hloop⟩ := exists_simplexWithin_entered hfresh hlow
        (choose_le_pivotLimit_withAuxiliary _)
      have hmin := minimizes_of_simplexWithin_eq_ok hfresh hlow hloop
      have htest : r.tolerance ≤ |r.constant| := by
        rw [hmin.rewrites.tolerance_eq]
        exact ht.trans (abs_nonneg _)
      have hphase := phaseOneWithin_eq_conclusion hfresh hlow hloop
      rw [conclusion, if_pos htest] at hphase
      refine ⟨_, _, solveWithin_of_phaseOneWithin_false hphase _, iff_of_true rfl ?_,
        fun hstatus => absurd rfl hstatus⟩
      rw [isBasic_ofStandardForm] at hk
      rw [coord_b_ofStandardForm, if_pos hk.1] at hneg
      exact ⟨k - form.numColumns, by omega, hneg⟩

end Tolerances

end Dictionary

/-! ### Columns that are pinned to one -/

/-- Columns that each have to be at least one and together at most as many as they are. -/
def StandardForm.pinned (n : ℕ) : StandardForm ℚ where
  a := DenseMatrix.ofFn (n + 1) n fun i j => if i = n then 1 else if i = j then -1 else 0
  b := Coords.tabulate (n + 1) fun i => if i = n then n else -1
  c := Coords.zeros n
  constant := 0

namespace StandardForm

variable {n i : ℕ} {x : ℕ → ℚ}

lemma numColumns_pinned (n : ℕ) : (pinned n).numColumns = n := Coords.size_zeros n

lemma numRows_pinned (n : ℕ) : (pinned n).numRows = n + 1 := Coords.size_tabulate _ _

lemma wellShaped_pinned (n : ℕ) : (pinned n).WellShaped :=
  ⟨DenseMatrix.wellShaped_ofFn _ _ _, (numRows_pinned n).symm, (numColumns_pinned n).symm⟩

lemma lhs_pinned (hi : i < n) (x : ℕ → ℚ) : (pinned n).lhs i x = -x i := by
  have hcell : ∀ j ∈ range n, (pinned n).a.get i j * x j = if i = j then -x i else 0 := by
    intro j hj
    rw [pinned, DenseMatrix.get_ofFn _ (by omega) (mem_range.mp hj), if_neg hi.ne]
    split_ifs with hij
    · rw [hij, neg_one_mul]
    · rw [zero_mul]
  rw [lhs, numColumns_pinned, sum_congr rfl hcell, sum_ite_eq, if_pos (mem_range.mpr hi)]

lemma lhs_pinned_last (n : ℕ) (x : ℕ → ℚ) : (pinned n).lhs n x = ∑ j ∈ range n, x j := by
  rw [lhs, numColumns_pinned]
  refine sum_congr rfl fun j hj => ?_
  rw [pinned, DenseMatrix.get_ofFn _ n.lt_succ_self (mem_range.mp hj), if_pos rfl, one_mul]

lemma coord_b_pinned (hi : i < n) : (pinned n).b.coord i = -1 := by
  rw [pinned, Coords.coord_tabulate, if_pos (by omega), if_neg hi.ne]

lemma coord_b_pinned_last (n : ℕ) : (pinned n).b.coord n = n := by
  rw [pinned, Coords.coord_tabulate, if_pos n.lt_succ_self, if_pos rfl]

/-- All columns can be one. -/
lemma isFeasible_pinned (n : ℕ) : (pinned n).IsFeasible fun _ => 1 where
  nonneg _ _ := zero_le_one
  lhs_le i hi := by
    rw [numRows_pinned] at hi
    rcases Nat.lt_succ_iff_lt_or_eq.mp hi with hi | rfl
    · rw [lhs_pinned hi, coord_b_pinned hi]
    · rw [lhs_pinned_last, coord_b_pinned_last]
      simp

/-- None can be less. -/
lemma one_le_of_within_pinned (hx : (pinned n).Within 0 x) (hi : i < n) : 1 ≤ x i := by
  have hrow := hx.lhs_le i (numRows_pinned n ▸ Nat.lt_succ_of_lt hi)
  rw [lhs_pinned hi, coord_b_pinned hi] at hrow
  linarith

end StandardForm

namespace Dictionary

variable {n : ℕ} {tolerance : ℚ} {r : Dictionary ℚ}

/-- The rows sum to zero. -/
lemma balanced_pinned (n : ℕ) (tolerance : ℚ) :
    (ofStandardForm (pinned n) tolerance).Balanced := by
  intro x hx
  rw [solves_withAuxiliary_ofStandardForm_iff, numColumns_pinned, numRows_pinned] at hx
  have hrow : ∀ i ∈ range n, x (n + i) = x i - 1 + x (n + (n + 1)) := fun i hi => by
    have hi := mem_range.mp hi
    rw [hx i (Nat.lt_succ_of_lt hi), coord_b_pinned hi, lhs_pinned hi]
    ring
  have hlast : x (n + n) = n - ∑ i ∈ range n, x i + x (n + (n + 1)) := by
    rw [hx n n.lt_succ_self, coord_b_pinned_last, lhs_pinned_last]
  rw [basis_ofStandardForm, numColumns_pinned, numRows_pinned, sum_Ico_eq_sum_range,
    Nat.add_sub_cancel_left, sum_range_succ, sum_congr rfl hrow, hlast, sum_add_distrib,
    sum_sub_distrib, sum_const, sum_const, card_range, nsmul_eq_mul, nsmul_eq_mul,
    numVariables_ofStandardForm, numColumns_pinned, numRows_pinned,
    show (ofStandardForm (pinned n) tolerance).numRows = n + 1 from numRows_pinned n]
  push_cast
  ring

section Pinned

variable (hmin : Minimizes (ofStandardForm (pinned n) tolerance) r)
include hmin

/-- The auxiliary variable gets down to zero. -/
lemma coord_b_auxiliary_pinned :
    r.b.coord (ofStandardForm (pinned n) tolerance).numVariables = 0 :=
  hmin.coord_b_eq_zero (wellFormed_ofStandardForm _ _)
    (isFeasible_pinned n).point_nonneg (solves_point _ _ _)

/-- All columns are basic there. -/
lemma isBasic_column_pinned {j : ℕ} (hj : j < n) : r.isBasic j := by
  have hwithin := hmin.within_fill
  rw [coord_b_auxiliary_pinned hmin] at hwithin
  have hone := one_le_of_within_pinned hwithin hj
  by_contra hnot
  rw [fill, if_neg hnot, Pi.zero_apply] at hone
  exact absurd hone (by norm_num)

/-- With the auxiliary variable these are as many basic variables as there are rows, so that no
slack is basic. -/
lemma isNonbasic_slack_pinned
    (hbasic : r.isBasic (ofStandardForm (pinned n) tolerance).numVariables) :
    ∀ j ∈ (ofStandardForm (pinned n) tolerance).basis, r.isNonbasic j := by
  have hsize : (ofStandardForm (pinned n) tolerance).numVariables = n + (n + 1) := by
    rw [numVariables_ofStandardForm, numColumns_pinned, numRows_pinned]
  have hrows : r.basis.card = n + 1 :=
    hmin.rewrites.wellFormed.card_basis.trans (hmin.rewrites.numRows_eq.trans (numRows_pinned n))
  have hsubset : insert (n + (n + 1)) (range n) ⊆ r.basis := by
    refine insert_subset (mem_basis.mpr (hsize ▸ hbasic)) fun j hj => ?_
    exact mem_basis.mpr (isBasic_column_pinned hmin (mem_range.mp hj))
  have hbasis : insert (n + (n + 1)) (range n) = r.basis := by
    refine eq_of_subset_of_card_le hsubset ?_
    rw [hrows, card_insert_of_notMem (by simp), card_range]
  intro j hj
  rw [basis_ofStandardForm, mem_Ico, numColumns_pinned, numRows_pinned] at hj
  have hlt : j < r.numVariables := by
    have := auxiliary_lt hmin.rewrites
    omega
  rw [isNonbasic_iff_not_isBasic hlt, ← mem_basis, ← hbasis, mem_insert, mem_range]
  omega

end Pinned

/-- A tolerance of at least one over the number of rows leaves the auxiliary variable basic when it
is to be dropped. -/
theorem phaseOne_pinned (hn : 0 < n) (htm : 1 ≤ tolerance * (n + 1)) :
    (ofStandardForm (pinned n) tolerance).phaseOne.result = .error .auxiliaryBasic := by
  have hfresh := wellFormed_ofStandardForm (pinned n) tolerance
  have hrows : (ofStandardForm (pinned n) tolerance).numRows = n + 1 := numRows_pinned n
  have hscale : (0 : ℚ) < n + 1 := by positivity
  have ht : 0 < tolerance := pos_of_mul_pos_left (one_pos.trans_le htm) hscale.le
  cases hlow : (ofStandardForm (pinned n) tolerance).lowestRow? with
  | none =>
      have hb := lowestRow?_eq_none_iff.mp hlow n
        (isBasic_ofStandardForm.mpr (by rw [numColumns_pinned, numRows_pinned]; omega))
      rw [coord_b_ofStandardForm, numColumns_pinned, if_pos le_rfl, Nat.sub_self,
        coord_b_pinned hn] at hb
      exact absurd hb (by norm_num)
  | some k =>
      obtain ⟨outcome, r, hloop⟩ := exists_simplexWithin_entered hfresh hlow
        (choose_le_pivotLimit_withAuxiliary _)
      have hmin := minimizes_of_simplexWithin_eq_ok hfresh hlow hloop
      have hbasic : r.isBasic (ofStandardForm (pinned n) tolerance).numVariables := by
        obtain ⟨steps, -, -, rfl⟩ := exists_stopsAfter hloop
        exact (balanced_pinned n tolerance).isBasic_iterate hfresh hlow steps
      have hall := isNonbasic_slack_pinned hmin hbasic
      have hsteep : r.steepest? (ofStandardForm (pinned n) tolerance).numVariables = none := by
        refine steepest?_eq_none_iff.mpr fun j hj => ?_
        have hle := (balanced_pinned n tolerance).abs_get_le hmin.rewrites hbasic hall hj
        rw [hrows] at hle
        push_cast at hle
        rw [hmin.rewrites.tolerance_eq]
        exact le_of_mul_le_mul_right (hle.trans htm) hscale
      have hdriven : r.expelAuxiliary.result = .ok r := by
        rw [expelAuxiliary_result hmin.rewrites, hbasic, hsteep]
      have htest : ¬ r.tolerance ≤ |r.constant| := by
        rw [hmin.abs_constant, coord_b_auxiliary_pinned hmin, hmin.rewrites.tolerance_eq]
        exact not_le.mpr ht
      refine (phaseOneWithin_eq_conclusion hfresh hlow hloop).trans ?_
      simp [conclusion, htest, hdriven, Except.bind, withoutAuxiliary_of_isBasic hbasic]

end Dictionary

/-! ### The solver -/

namespace Solver

open Dictionary

variable {solver : Solver ℚ} {form : StandardForm ℚ} {fault : Fault}

lemma solve_result_eq_error
    (h : (ofStandardForm form solver.tolerance).solve.result = .error fault) :
    (solver.solve form).result = .error fault := by
  simp [solve, h, Except.bind]

/-- What becomes of a program with a feasible point at any tolerance. At a positive one the answer
is right, unless the auxiliary variable cannot be dropped, which takes a tolerance of at least one
over the number of rows. Without a positive one the program is called infeasible exactly where a
right-hand side is negative. And the bound is sharp: for every number of rows from two on and every
tolerance from there on there is a program with a feasible point at which the solver breaks off. -/
theorem feasible_programs (solver : Solver ℚ) :
    (∀ form : StandardForm ℚ, (∃ x, form.IsFeasible x) →
      (0 < solver.tolerance →
        (∃ s, (solver.solve form).result = .ok s ∧ s.Answers form ∧ s.status ≠ .infeasible) ∨
          (solver.solve form).result = .error .auxiliaryBasic ∧
            1 ≤ solver.tolerance * form.numRows) ∧
      (solver.tolerance ≤ 0 →
        ∃ s, (solver.solve form).result = .ok s ∧
          (s.status = .infeasible ↔ ∃ i < form.numRows, form.b.coord i < 0) ∧
          (s.status ≠ .infeasible → s.Answers form))) ∧
    ∀ rows : ℕ, 2 ≤ rows → 1 ≤ solver.tolerance * rows →
      ∃ form : StandardForm ℚ, form.WellShaped ∧ form.numRows = rows ∧ (∃ x, form.IsFeasible x) ∧
        (solver.solve form).result = .error .auxiliaryBasic := by
  refine ⟨fun form hx => ⟨fun ht => ?_, fun ht => ?_⟩, fun rows hrows htm => ?_⟩
  · obtain ⟨s, last, hsolve, hanswers⟩ | ⟨hsolve, hreach⟩ := solve_eq_ok_or_auxiliaryBasic ht hx
    · exact .inl ⟨s, solve_result_eq hsolve, hanswers⟩
    · exact .inr ⟨solve_result_eq_error hsolve, hreach⟩
  · obtain ⟨s, last, hsolve, hanswers⟩ := exists_solve_of_nonpos form ht
    exact ⟨s, solve_result_eq hsolve, hanswers⟩
  · obtain ⟨n, rfl⟩ : ∃ n, rows = n + 1 := ⟨rows - 1, by omega⟩
    push_cast at htm
    have hphase := phaseOne_pinned (by omega : 0 < n) htm
    exact ⟨pinned n, wellShaped_pinned n, numRows_pinned n, ⟨_, isFeasible_pinned n⟩,
      solve_result_eq_error (solveWithin_eq_error hphase _)⟩

/-- A column between one and three is found at a tolerance of a tenth, one that is at least one is
not found without a tolerance, and a tolerance of a half breaks off on some program of two rows. -/
theorem feasible_programs_one_column :
    (∃ s, ((⟨1 / 10⟩ : Solver ℚ).solve (between 1 3)).result = .ok s ∧ s.Answers (between 1 3)) ∧
    (∃ s, ((⟨0⟩ : Solver ℚ).solve (above 1)).result = .ok s ∧ s.status = .infeasible) ∧
    ∃ form, form.numRows = 2 ∧ (∃ x, form.IsFeasible x) ∧
      ((⟨1 / 2⟩ : Solver ℚ).solve form).result = .error .auxiliaryBasic := by
  refine ⟨?_, ?_, ?_⟩
  · have hinside : (between 1 3).IsFeasible fun _ => 2 := by
      constructor <;> decide +kernel
    obtain ⟨s, hs, hanswers, -⟩ | ⟨-, hreach⟩ :=
      ((feasible_programs ⟨1 / 10⟩).1 (between 1 3) ⟨_, hinside⟩).1 (by norm_num)
    · exact ⟨s, hs, hanswers⟩
    · exact absurd hreach (by decide +kernel)
  · have habove : (above 1).IsFeasible fun _ => 2 := by
      constructor <;> decide +kernel
    obtain ⟨s, hs, hstatus, -⟩ := ((feasible_programs ⟨0⟩).1 (above 1) ⟨_, habove⟩).2 le_rfl
    exact ⟨s, hs, hstatus.mpr ⟨0, by decide, by decide +kernel⟩⟩
  · obtain ⟨form, -, hrows, hx, hsolve⟩ := (feasible_programs ⟨1 / 2⟩).2 2 le_rfl (by norm_num)
    exact ⟨form, hrows, hx, hsolve⟩

/-- A program with a feasible point can be called infeasible, as it is without a tolerance for a
column that is at least one; and it can break off, as it does at a tolerance of a half for a column
that has to be exactly one. -/
theorem feasible_program_rejected :
    (¬ ∀ (form : StandardForm ℚ) (tolerance : ℚ) (s : Solution ℚ), form.WellShaped →
      0 ≤ tolerance → (∃ x, form.IsFeasible x) →
      ((⟨tolerance⟩ : Solver ℚ).solve form).result = .ok s → s.status ≠ .infeasible) ∧
    ¬ ∀ (form : StandardForm ℚ) (tolerance : ℚ), form.WellShaped → 0 ≤ tolerance →
      (∃ x, form.IsFeasible x) → ∃ s, ((⟨tolerance⟩ : Solver ℚ).solve form).result = .ok s := by
  refine ⟨fun h => ?_, fun h => ?_⟩
  · have habove : (above 1).IsFeasible fun _ => 2 := by
      constructor <;> decide +kernel
    exact h (above 1) 0 (.infeasible 2) ⟨rfl, rfl, rfl⟩ le_rfl ⟨_, habove⟩ (by decide +kernel) rfl
  · have hone : (between 1 1).IsFeasible fun _ => 1 := by
      constructor <;> decide +kernel
    have hbreaks : ((⟨1 / 2⟩ : Solver ℚ).solve (between 1 1)).result = .error .auxiliaryBasic := by
      decide +kernel
    obtain ⟨s, hs⟩ := h (between 1 1) (1 / 2) ⟨rfl, rfl, rfl⟩ (by norm_num) ⟨_, hone⟩
    rw [hbreaks] at hs
    cases hs

end Solver

end LinProg
