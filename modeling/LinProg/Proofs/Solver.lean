import LinProg.Proofs.Dictionary.Certificates

/-!
The solver is correct on canonical programs, over the exact rationals.

* `StandardForm.Gap`: no nonnegative point misses the rows of a program by less than the tolerance.
* `Solution.Answers`: a solution says of a program what is true of it.
* `Dictionary.exists_solveWithin`: both phases from the dictionary of a program come to such a
  solution; `Solver.solve_correct` says so of the solver.
-/

namespace LinProg

open Finset

/-! ### Right answers -/

namespace StandardForm

/-- A program has a feasible point, or every nonnegative point misses a row by at least the
tolerance. -/
def Gap (form : StandardForm ℚ) (tolerance : ℚ) : Prop :=
  (∃ x, form.IsFeasible x) ∨
    ∀ x : ℕ → ℚ, (∀ j < form.numColumns, 0 ≤ x j) →
      ∃ i < form.numRows, form.b.coord i + tolerance ≤ form.lhs i x

/-- The objective of a program exceeds every bound at feasible points. -/
def IsUnbounded (form : StandardForm ℚ) : Prop :=
  ∀ bound, ∃ x, form.IsFeasible x ∧ bound < form.objectiveAt x

end StandardForm

/-- A solution is right about a program: it says that there is no feasible point, or no greatest
value of the objective, exactly where this is so, and gives an optimal point everywhere else. -/
structure Solution.Answers (s : Solution ℚ) (form : StandardForm ℚ) : Prop where
  infeasible_iff : s.status = .infeasible ↔ ¬ ∃ x, form.IsFeasible x
  of_infeasible : s.status = .infeasible → s.values = none ∧ s.objective = .value 0
  unbounded_iff : s.status = .unbounded ↔ (∃ x, form.IsFeasible x) ∧ form.IsUnbounded
  of_unbounded : s.status = .unbounded → s.values = none ∧ s.objective = .posInfinity
  of_feasible : s.status = .feasible → ∃ v : Coords ℚ,
    s.values = some v ∧ v.size = form.numColumns ∧ form.IsFeasible v.coord ∧
    s.objective = .value (form.objectiveAt v.coord) ∧
    ∀ x, form.IsFeasible x → form.objectiveAt x ≤ form.objectiveAt v.coord

namespace Solution

variable {form : StandardForm ℚ} {x : ℕ → ℚ} {pivots : ℕ}

lemma answers_infeasible (h : ¬ ∃ x, form.IsFeasible x) (pivots : ℕ) :
    (infeasible pivots : Solution ℚ).Answers form where
  infeasible_iff := iff_of_true rfl h
  of_infeasible _ := ⟨rfl, rfl⟩
  unbounded_iff := iff_of_false (by simp [infeasible]) fun hx => h hx.1
  of_unbounded hstatus := absurd hstatus (by simp [infeasible])
  of_feasible hstatus := absurd hstatus (by simp [infeasible])

lemma answers_unbounded (hx : form.IsFeasible x) (h : form.IsUnbounded) (pivots : ℕ) :
    (unbounded pivots : Solution ℚ).Answers form where
  infeasible_iff := iff_of_false (by simp [unbounded]) fun hnone => hnone ⟨x, hx⟩
  of_infeasible hstatus := absurd hstatus (by simp [unbounded])
  unbounded_iff := iff_of_true rfl ⟨⟨x, hx⟩, h⟩
  of_unbounded _ := ⟨rfl, rfl⟩
  of_feasible hstatus := absurd hstatus (by simp [unbounded])

lemma answers_feasible {v : Coords ℚ} {value : ℚ} (hsize : v.size = form.numColumns)
    (hv : form.IsFeasible v.coord) (hvalue : form.objectiveAt v.coord = value)
    (hbest : ∀ x, form.IsFeasible x → form.objectiveAt x ≤ value) (pivots : ℕ) :
    (feasible v value pivots : Solution ℚ).Answers form where
  infeasible_iff := iff_of_false (by simp [feasible]) fun hnone => hnone ⟨v.coord, hv⟩
  of_infeasible hstatus := absurd hstatus (by simp [feasible])
  unbounded_iff := by
    refine iff_of_false (by simp [feasible]) fun h => ?_
    obtain ⟨x, hx, hlt⟩ := h.2 value
    exact absurd hlt (not_lt.mpr (hbest x hx))
  of_unbounded hstatus := absurd hstatus (by simp [feasible])
  of_feasible _ := ⟨v, rfl, hsize, hv, congrArg Extended.value hvalue.symm, hvalue ▸ hbest⟩

end Solution

/-! ### Both phases -/

namespace Dictionary

open StandardForm

variable {form : StandardForm ℚ} {tolerance : ℚ} {d : Dictionary ℚ} {x : ℕ → ℚ}

/-- The nonnegative solutions of the dictionary of a program are its feasible points. -/
lemma isFeasible_of_solves (hx : ∀ i, 0 ≤ x i) (h : (ofStandardForm form tolerance).Solves x) :
    form.IsFeasible x where
  nonneg j _ := hx j
  lhs_le i hi := by
    have hslack := solves_ofStandardForm_iff.mp h i hi
    have hnonneg := hx (form.numColumns + i)
    linarith

/-- A program without points that nearly satisfy it has a dictionary without them. -/
lemma gap_ofStandardForm (h : form.Gap tolerance) : (ofStandardForm form tolerance).Gap := by
  obtain ⟨x, hx⟩ | hmiss := h
  · exact .inl ⟨form.point x 0, hx.point_nonneg, solves_point form tolerance x⟩
  · refine .inr fun x hx hsolves => ?_
    obtain ⟨i, hi, hrow⟩ := hmiss x fun j _ => hx j
    have hle := (within_of_solves hx hsolves).lhs_le i hi
    rw [numVariables_ofStandardForm]
    change tolerance ≤ _
    linarith

/-- The basic solution of a feasible rewriting is a feasible point of the program. -/
lemma isFeasible_fill (h : Rewrites (ofStandardForm form tolerance) d) (hf : d.Feasible) :
    form.IsFeasible (d.fill 0) :=
  isFeasible_of_solves hf.fill_nonneg
    ((h.equivalent.solves_iff _).mp (solves_fill h.wellFormed 0))

/-- Its objective is the constant. -/
lemma objectiveAt_fill (h : Rewrites (ofStandardForm form tolerance) d) :
    form.objectiveAt (d.fill 0) = d.constant := by
  have hvalue := h.equivalent.valueAt_eq
    ((h.equivalent.solves_iff _).mp (solves_fill h.wellFormed 0))
  rw [valueAt_fill_zero h.wellFormed, valueAt_ofStandardForm] at hvalue
  exact hvalue.symm

/-- The point that is given as the optimum has the columns of the basic solution. -/
lemma coord_optimum_values (hd : d.WellFormed) (hcolumns : d.numColumns ≤ d.numVariables) {j : ℕ}
    (hj : j < d.numColumns) :
    Coords.coord (d.basicSolution.extract 0 d.numColumns) j = d.fill 0 j := by
  have hlt : j < d.numVariables := hj.trans_le hcolumns
  rw [Coords.coord_extract, if_pos hj, coord_basicSolution hd hlt, fill_zero hd hlt]

lemma coord_extract_basicSolution (h : Rewrites (ofStandardForm form tolerance) d) {j : ℕ}
    (hj : j < form.numColumns) :
    Coords.coord (d.basicSolution.extract 0 d.numColumns) j = d.fill 0 j := by
  have hcolumns : d.numColumns = form.numColumns := h.numColumns_eq
  refine coord_optimum_values h.wellFormed ?_ (hcolumns ▸ hj)
  rw [hcolumns, h.equivalent.numVariables_eq, numVariables_ofStandardForm]
  exact Nat.le_add_right _ _

lemma size_extract_basicSolution (h : Rewrites (ofStandardForm form tolerance) d) :
    (d.basicSolution.extract 0 d.numColumns).size = form.numColumns := by
  have hcolumns : d.numColumns = form.numColumns := h.numColumns_eq
  have hsize : d.basicSolution.size = form.numColumns + form.numRows := by
    rw [basicSolution, assignment, Coords.size_tabulate, h.equivalent.numVariables_eq,
      numVariables_ofStandardForm]
  simp [hsize, hcolumns]

/-- A feasible rewriting without positive costs shows an optimal point. -/
lemma answers_optimum (h : Rewrites (ofStandardForm form tolerance) d) (hf : d.Feasible)
    (hc : ∀ j, d.isNonbasic j → d.c.coord j ≤ 0) : d.optimum.Answers form := by
  have hsame : ∀ j < form.numColumns,
      Coords.coord (d.basicSolution.extract 0 d.numColumns) j = d.fill 0 j :=
    fun j hj => coord_extract_basicSolution h hj
  have hfill := isFeasible_fill h hf
  refine Solution.answers_feasible (size_extract_basicSolution h) ⟨?_, ?_⟩ ?_ ?_ d.pivots
  · intro j hj
    rw [hsame j hj]
    exact hfill.nonneg j hj
  · intro i hi
    rw [lhs_congr hsame]
    exact hfill.lhs_le i hi
  · rw [objectiveAt_congr hsame, objectiveAt_fill h]
  · exact fun x hx => (optimalCertificate_of_rewrites h hc).objectiveAt_le hx

/-- The solution that a dictionary shows where the loop has ended in it. -/
def verdict (d : Dictionary ℚ) : Outcome → Solution ℚ
  | .optimal => d.optimum
  | .unbounded => .unbounded d.pivots

/-- In a feasible rewriting the end of the loop shows a right answer, which is not that there is no
feasible point. -/
lemma answers_verdict {outcome : Outcome} (h : Rewrites (ofStandardForm form tolerance) d)
    (hf : d.Feasible) (houtcome : d.choice.outcome? = some outcome) :
    (d.verdict outcome).Answers form ∧ (d.verdict outcome).status ≠ .infeasible := by
  cases outcome with
  | optimal =>
      exact ⟨answers_optimum h hf (outcome?_eq_optimal_iff.mp houtcome), Status.noConfusion⟩
  | unbounded =>
      obtain ⟨e, hchoice⟩ := outcome?_eq_unbounded_iff.mp houtcome
      have hx := isFeasible_fill h hf
      have hgrows := (unboundedCertificate_of_choice_eq h hchoice).exists_lt hx
      exact ⟨Solution.answers_unbounded hx hgrows _, Status.noConfusion⟩

/-- Where phase one finds a feasible basic solution, the loop from there decides. -/
lemma solveWithin_of_phaseOneWithin {limit₁ limit₂ : ℕ} {ready last : Dictionary ℚ}
    {outcome : Outcome} (hphase : (d.phaseOneWithin limit₁).result = .ok (true, ready))
    (hloop : (ready.simplexWithin limit₂).result = .ok (outcome, last)) :
    (d.solveWithin limit₁ limit₂).result = .ok (last.verdict outcome, last) := by
  cases outcome <;> simp [solveWithin, hphase, hloop, Except.bind, verdict]

/-- Where it finds none, nothing else is done. -/
lemma solveWithin_of_phaseOneWithin_false {limit₁ : ℕ} {left : Dictionary ℚ}
    (hphase : (d.phaseOneWithin limit₁).result = .ok (false, left)) (limit₂ : ℕ) :
    (d.solveWithin limit₁ limit₂).result = .ok (.infeasible left.pivots, left) := by
  simp [solveWithin, hphase, Except.bind]

/-- From a feasible dictionary that phase one leaves, the loop comes to an end and a right
answer. -/
lemma exists_solveWithin_of_phaseOneWithin {limit₁ limit₂ : ℕ} {ready : Dictionary ℚ}
    (hphase : ((ofStandardForm form tolerance).phaseOneWithin limit₁).result = .ok (true, ready))
    (hf : ready.Feasible)
    (hlimit₂ : (form.numColumns + form.numRows).choose form.numRows ≤ limit₂) :
    ∃ k outcome, ready.StopsAfter k outcome ∧ k ≤ limit₂ ∧
      ((ofStandardForm form tolerance).solveWithin limit₁ limit₂).result =
        .ok ((next^[k] ready).verdict outcome, next^[k] ready) ∧
      ((next^[k] ready).verdict outcome).Answers form ∧
      ((next^[k] ready).verdict outcome).status ≠ .infeasible := by
  have hrewrites := of_phaseOneWithin_eq_true (wellFormed_ofStandardForm form tolerance) hphase
  obtain ⟨k, hk, outcome, hstops⟩ := hf.exists_stopsAfter hrewrites.wellFormed
  rw [hrewrites.equivalent.numVariables_eq, hrewrites.numRows_eq,
    numVariables_ofStandardForm] at hk
  have hlimit : k ≤ limit₂ := hk.le.trans hlimit₂
  have hlast := hrewrites.trans (rewrites_iterate hrewrites.wellFormed k)
  exact ⟨k, outcome, hstops, hlimit,
    solveWithin_of_phaseOneWithin hphase (hstops.simplexWithin_eq hlimit),
    answers_verdict hlast (hf.iterate k) hstops.outcome_eq⟩

/-- Both phases from the dictionary of a program come to a right answer, within any limits that are
beyond the number of partitions. -/
theorem exists_solveWithin {limit₁ limit₂ : ℕ} (ht : 0 < tolerance)
    (htm : tolerance * form.numRows < 1) (hgap : form.Gap tolerance)
    (hlimit₁ : (form.numColumns + form.numRows + 1).choose form.numRows ≤ limit₁)
    (hlimit₂ : (form.numColumns + form.numRows).choose form.numRows ≤ limit₂) :
    ∃ s last, ((ofStandardForm form tolerance).solveWithin limit₁ limit₂).result = .ok (s, last) ∧
      s.Answers form := by
  have hfresh := wellFormed_ofStandardForm form tolerance
  have hsize : (ofStandardForm form tolerance).numVariables = form.numColumns + form.numRows :=
    numVariables_ofStandardForm
  rw [← hsize] at hlimit₁
  obtain ⟨found, ready, hready⟩ := exists_phaseOneWithin hfresh ht.le htm hlimit₁
  cases found with
  | false =>
      obtain ⟨hmin, hreach⟩ := of_phaseOneWithin_eq_false hfresh hready
      have hnone : ¬ ∃ x, form.IsFeasible x := fun ⟨x, hx⟩ =>
        (infeasibleCertificate_of_minimizes hmin hreach).not_isFeasible ht hx
      exact ⟨_, ready, solveWithin_of_phaseOneWithin_false hready _,
        Solution.answers_infeasible hnone ready.pivots⟩
  | true =>
      have hfeasible := feasible_of_phaseOneWithin_eq_true hfresh (gap_ofStandardForm hgap) hready
      obtain ⟨k, outcome, -, -, hsolve, hanswers, -⟩ :=
        exists_solveWithin_of_phaseOneWithin hready hfeasible hlimit₂
      exact ⟨_, _, hsolve, hanswers⟩

/-- Both phases come to a right answer within their own limits. -/
lemma exists_solve (ht : 0 < tolerance) (htm : tolerance * form.numRows < 1)
    (hgap : form.Gap tolerance) :
    ∃ s last, (ofStandardForm form tolerance).solve.result = .ok (s, last) ∧ s.Answers form := by
  refine exists_solveWithin ht htm hgap ?_ ?_
  · have hlimit := choose_le_pivotLimit (ofStandardForm form tolerance).withAuxiliary
    rwa [numVariables_withAuxiliary, numVariables_ofStandardForm] at hlimit
  · have hlimit := choose_le_pivotLimit (ofStandardForm form tolerance)
    rwa [numVariables_ofStandardForm] at hlimit

end Dictionary

/-! ### The solver -/

namespace Solver

open StandardForm

variable {solver : Solver ℚ} {form : StandardForm ℚ}

/-- The solver gives the solution that both phases come to. -/
lemma solve_result_eq {s : Solution ℚ} {last : Dictionary ℚ}
    (h : (Dictionary.ofStandardForm form solver.tolerance).solve.result = .ok (s, last)) :
    (solver.solve form).result = .ok s := by
  simp [solve, h, Except.bind]

/-- The solver comes to a right answer on every program that no nonnegative point misses by less
than the tolerance, where the tolerance is positive and below one over the number of rows. -/
theorem solve_correct (solver : Solver ℚ) (form : StandardForm ℚ) (ht : 0 < solver.tolerance)
    (htm : solver.tolerance * form.numRows < 1) (hgap : form.Gap solver.tolerance) :
    ∃ s, (solver.solve form).result = .ok s ∧ s.Answers form := by
  obtain ⟨s, last, hsolve, hanswers⟩ := Dictionary.exists_solve ht htm hgap
  exact ⟨s, solve_result_eq hsolve, hanswers⟩

/-- A column between one and three, one that would have to be at least two and at most one, and one
that is at least one have the three answers. -/
theorem solve_correct_one_column :
    (.feasible #[3] 11 3 : Solution ℚ).Answers (between 1 3) ∧
    (.infeasible 2 : Solution ℚ).Answers (between 2 1) ∧
    (.unbounded 2 : Solution ℚ).Answers (above 1) := by
  have hinside : (between 1 3).IsFeasible fun _ => 2 := by
    constructor <;> decide +kernel
  have habove : (above 1).IsFeasible fun _ => 2 := by
    constructor <;> decide +kernel
  have hmissed : (between 2 1).Gap (1 / 10) := by
    refine .inr fun x _ => ?_
    have hlow : (between 2 1).lhs 0 x = -1 * x 0 := Finset.sum_range_one _
    have hhigh : (between 2 1).lhs 1 x = 1 * x 0 := Finset.sum_range_one _
    rcases le_total (x 0) (3 / 2) with hx | hx
    · refine ⟨0, by decide, ?_⟩
      rw [hlow, show (between 2 1).b.coord 0 = -2 from rfl]
      linarith
    · refine ⟨1, by decide, ?_⟩
      rw [hhigh, show (between 2 1).b.coord 1 = 1 from rfl]
      linarith
  refine ⟨?_, ?_, ?_⟩
  · obtain ⟨s, hs, hanswers⟩ := solve_correct ⟨1 / 10⟩ (between 1 3) (by norm_num)
      (by decide +kernel) (.inl ⟨_, hinside⟩)
    have hvalue : ((⟨1 / 10⟩ : Solver ℚ).solve (between 1 3)).result =
        .ok (.feasible #[3] 11 3) := by decide +kernel
    rw [hvalue] at hs
    exact Except.ok.inj hs ▸ hanswers
  · obtain ⟨s, hs, hanswers⟩ := solve_correct ⟨1 / 10⟩ (between 2 1) (by norm_num)
      (by decide +kernel) hmissed
    have hvalue : ((⟨1 / 10⟩ : Solver ℚ).solve (between 2 1)).result = .ok (.infeasible 2) := by
      decide +kernel
    rw [hvalue] at hs
    exact Except.ok.inj hs ▸ hanswers
  · obtain ⟨s, hs, hanswers⟩ := solve_correct ⟨1 / 10⟩ (above 1) (by norm_num)
      (by decide +kernel) (.inl ⟨_, habove⟩)
    have hvalue : ((⟨1 / 10⟩ : Solver ℚ).solve (above 1)).result = .ok (.unbounded 2) := by
      decide +kernel
    rw [hvalue] at hs
    exact Except.ok.inj hs ▸ hanswers

end Solver

end LinProg
