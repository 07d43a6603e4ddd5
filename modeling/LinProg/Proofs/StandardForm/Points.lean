import LinProg.Proofs.Dictionary.Auxiliary
import LinProg.Dictionary.Solve

/-!
What a canonical program says about the values of its columns, over the exact rationals, and what
its dictionary says about them.

* `StandardForm.lhs`, `StandardForm.objectiveAt`, `StandardForm.IsFeasible`: the left-hand side of
  a row, the objective and the feasible points.
* `StandardForm.columnSum`, `StandardForm.rhsSum`: the combination of the rows with multipliers.
* `StandardForm.Within`: the points that miss no row by more than a margin.
* `StandardForm.point`: the values of all variables from those of the columns.
  `solves_ofStandardForm_iff`, `valueAt_ofStandardForm` and `solves_withAuxiliary_point` say that
  the dictionary of the program is about these points.
* `Dictionary.multiplier`, `valueAt_point`: the objective of any rewriting as a combination of the
  rows of the program.
* `objectiveAt_eq_valueAt`, `coord_assignment`: evaluation reads a dictionary off as the theory
  does; `coord_basicSolution`, `basicSolution_eq`: the basic solution has the right-hand sides as
  its values and is determined by them.
-/

namespace LinProg

open Finset

/-! ### Points of a program -/

namespace StandardForm

variable {form : StandardForm ℚ} {x y : ℕ → ℚ} {i j : ℕ}

/-- The left-hand side of a row. -/
def lhs (form : StandardForm ℚ) (i : ℕ) (x : ℕ → ℚ) : ℚ :=
  ∑ j ∈ range form.numColumns, form.a.get i j * x j

/-- The objective of a program. -/
def objectiveAt (form : StandardForm ℚ) (x : ℕ → ℚ) : ℚ :=
  form.constant + ∑ j ∈ range form.numColumns, form.c.coord j * x j

/-- A point is nonnegative and satisfies every row. -/
structure IsFeasible (form : StandardForm ℚ) (x : ℕ → ℚ) : Prop where
  nonneg : ∀ j < form.numColumns, 0 ≤ x j
  lhs_le : ∀ i < form.numRows, form.lhs i x ≤ form.b.coord i

/-- What multipliers of the rows make of the column `j`. -/
def columnSum (form : StandardForm ℚ) (y : ℕ → ℚ) (j : ℕ) : ℚ :=
  ∑ i ∈ range form.numRows, y i * form.a.get i j

/-- What multipliers of the rows make of the right-hand sides. -/
def rhsSum (form : StandardForm ℚ) (y : ℕ → ℚ) : ℚ := ∑ i ∈ range form.numRows, y i * form.b.coord i

lemma lhs_congr (h : ∀ j < form.numColumns, x j = y j) (i : ℕ) : form.lhs i x = form.lhs i y :=
  sum_congr rfl fun j hj => by rw [h j (mem_range.mp hj)]

lemma objectiveAt_congr (h : ∀ j < form.numColumns, x j = y j) :
    form.objectiveAt x = form.objectiveAt y := by
  rw [objectiveAt, objectiveAt, sum_congr rfl fun j hj => by rw [h j (mem_range.mp hj)]]

/-- A point of the columns with the slacks of the rows, where each row is missed by `s`, and `s`
itself as the value of an auxiliary variable. -/
def point (form : StandardForm ℚ) (x : ℕ → ℚ) (s : ℚ) (j : ℕ) : ℚ :=
  if j < form.numColumns then x j
  else if j < form.numColumns + form.numRows then
    form.b.coord (j - form.numColumns) - form.lhs (j - form.numColumns) x + s
  else s

lemma point_column (hj : j < form.numColumns) (s : ℚ) : form.point x s j = x j := if_pos hj

lemma point_slack (hi : i < form.numRows) (s : ℚ) :
    form.point x s (form.numColumns + i) = form.b.coord i - form.lhs i x + s := by
  rw [point, if_neg (by omega), if_pos (by omega), Nat.add_sub_cancel_left]

lemma point_beyond (hj : form.numColumns + form.numRows ≤ j) (s : ℚ) : form.point x s j = s := by
  rw [point, if_neg (by omega), if_neg (by omega)]

/-- A nonnegative point misses no row by more than `s`. -/
structure Within (form : StandardForm ℚ) (s : ℚ) (x : ℕ → ℚ) : Prop where
  nonneg : ∀ j < form.numColumns, 0 ≤ x j
  lhs_le : ∀ i < form.numRows, form.lhs i x ≤ form.b.coord i + s

lemma IsFeasible.within (hx : form.IsFeasible x) : form.Within 0 x where
  nonneg := hx.nonneg
  lhs_le i hi := by
    rw [add_zero]
    exact hx.lhs_le i hi

/-- With such a margin as the auxiliary variable, the point leaves no slack negative. -/
lemma Within.point_nonneg {s : ℚ} (hx : form.Within s x) (hs : 0 ≤ s) (j : ℕ) :
    0 ≤ form.point x s j := by
  rw [point]
  split_ifs with hcolumn hslack
  · exact hx.nonneg j hcolumn
  · have := hx.lhs_le (j - form.numColumns) (by omega)
    linarith
  · exact hs

/-- The point of a feasible choice of columns is nonnegative. -/
lemma IsFeasible.point_nonneg (hx : form.IsFeasible x) (j : ℕ) : 0 ≤ form.point x 0 j :=
  hx.within.point_nonneg le_rfl j

end StandardForm

/-! ### Its dictionary at these points -/

namespace Dictionary

open StandardForm

variable {form : StandardForm ℚ} {tolerance s : ℚ} {d : Dictionary ℚ} {x : ℕ → ℚ} {v : Coords ℚ}
  {i j : ℕ}

/-- The row of a slack subtracts the left-hand side of its row in the program. -/
lemma rowSum_ofStandardForm (hi : i < form.numRows) (x : ℕ → ℚ) :
    (ofStandardForm form tolerance).rowSum (form.numColumns + i) x = form.lhs i x := by
  have hzero : ∑ k ∈ range form.numRows,
      (ofStandardForm form tolerance).a.get (form.numColumns + i) (form.numColumns + k) *
        x (form.numColumns + k) = 0 := by
    refine sum_eq_zero fun k hk => ?_
    rw [mem_range] at hk
    rw [get_ofStandardForm (by omega) (by omega), if_neg (by omega), zero_mul]
  rw [rowSum, numVariables_ofStandardForm, sum_range_add, hzero, add_zero, lhs]
  refine sum_congr rfl fun j hj => ?_
  rw [mem_range] at hj
  rw [get_ofStandardForm (by omega) (by omega), if_pos (by omega), Nat.add_sub_cancel_left]

/-- The solutions of the dictionary of a program have in each slack what its row leaves. -/
lemma solves_ofStandardForm_iff :
    (ofStandardForm form tolerance).Solves x ↔
      ∀ i < form.numRows, x (form.numColumns + i) = form.b.coord i - form.lhs i x := by
  constructor
  · intro h i hi
    rw [h _ (isBasic_ofStandardForm.mpr (by omega)), rowSum_ofStandardForm hi,
      coord_b_ofStandardForm, if_pos (by omega), Nat.add_sub_cancel_left]
  · intro h k hk
    rw [isBasic_ofStandardForm] at hk
    obtain ⟨i, rfl⟩ := Nat.exists_eq_add_of_le hk.1
    have hi : i < form.numRows := by omega
    rw [h i hi, rowSum_ofStandardForm hi, coord_b_ofStandardForm, if_pos (by omega),
      Nat.add_sub_cancel_left]

lemma solves_point (form : StandardForm ℚ) (tolerance : ℚ) (x : ℕ → ℚ) :
    (ofStandardForm form tolerance).Solves (form.point x 0) := by
  rw [solves_ofStandardForm_iff]
  intro i hi
  rw [point_slack hi, add_zero, lhs_congr fun j hj => point_column hj 0]

/-- With the auxiliary variable every row may be missed alike. -/
lemma solves_withAuxiliary_ofStandardForm_iff :
    (ofStandardForm form tolerance).withAuxiliary.Solves x ↔
      ∀ i < form.numRows, x (form.numColumns + i) =
        form.b.coord i - form.lhs i x + x (form.numColumns + form.numRows) := by
  rw [solves_withAuxiliary_iff (wellFormed_ofStandardForm form tolerance),
    numVariables_ofStandardForm]
  constructor
  · intro h i hi
    rw [h _ (isBasic_ofStandardForm.mpr (by omega)), rowSum_ofStandardForm hi,
      coord_b_ofStandardForm, if_pos (by omega), Nat.add_sub_cancel_left]
  · intro h k hk
    rw [isBasic_ofStandardForm] at hk
    obtain ⟨i, rfl⟩ := Nat.exists_eq_add_of_le hk.1
    have hi : i < form.numRows := by omega
    rw [h i hi, rowSum_ofStandardForm hi, coord_b_ofStandardForm, if_pos (by omega),
      Nat.add_sub_cancel_left]

lemma solves_withAuxiliary_point (form : StandardForm ℚ) (tolerance : ℚ) (x : ℕ → ℚ) (s : ℚ) :
    (ofStandardForm form tolerance).withAuxiliary.Solves (form.point x s) := by
  rw [solves_withAuxiliary_ofStandardForm_iff]
  intro i hi
  rw [point_slack hi, point_beyond le_rfl, lhs_congr fun j hj => point_column hj s]

/-- Conversely a nonnegative solution misses no row by more than the auxiliary variable. -/
lemma within_of_solves (hx : ∀ i, 0 ≤ x i)
    (h : (ofStandardForm form tolerance).withAuxiliary.Solves x) :
    form.Within (x (form.numColumns + form.numRows)) x := by
  refine ⟨fun j _ => hx j, fun i hi => ?_⟩
  have hslack := solves_withAuxiliary_ofStandardForm_iff.mp h i hi
  have hnonneg := hx (form.numColumns + i)
  linarith

/-- The dictionary of a program has the costs of the program. -/
lemma costSum_ofStandardForm (form : StandardForm ℚ) (tolerance : ℚ) (x : ℕ → ℚ) :
    (ofStandardForm form tolerance).costSum x =
      ∑ j ∈ range form.numColumns, form.c.coord j * x j := by
  have hzero : ∑ k ∈ range form.numRows,
      (ofStandardForm form tolerance).c.coord (form.numColumns + k) * x (form.numColumns + k) =
        0 := by
    refine sum_eq_zero fun k _ => ?_
    have hbeyond : form.c.coord (form.numColumns + k) = 0 :=
      Coords.coord_of_size_le (Nat.le_add_right _ _)
    rw [coord_c_ofStandardForm, hbeyond, zero_mul]
  rw [costSum, numVariables_ofStandardForm, sum_range_add, hzero, add_zero]
  simp only [coord_c_ofStandardForm]

/-- The dictionary of a program has the objective of the program. -/
lemma valueAt_ofStandardForm (form : StandardForm ℚ) (tolerance : ℚ) (x : ℕ → ℚ) :
    (ofStandardForm form tolerance).valueAt x = form.objectiveAt x := by
  rw [valueAt, costSum_ofStandardForm]
  rfl

/-! ### The objective as a combination of the rows -/

/-- The multiplier of a row: the negated cost of its slack. -/
def multiplier (d : Dictionary ℚ) (form : StandardForm ℚ) (i : ℕ) : ℚ :=
  -d.c.coord (form.numColumns + i)

/-- At a point of the program, the costs of the slacks are a combination of the rows. -/
lemma sum_slack_costs (d : Dictionary ℚ) (form : StandardForm ℚ) (x : ℕ → ℚ) :
    ∑ i ∈ range form.numRows,
        d.c.coord (form.numColumns + i) * form.point x 0 (form.numColumns + i) =
      ∑ j ∈ range form.numColumns, form.columnSum (d.multiplier form) j * x j -
        form.rhsSum (d.multiplier form) := by
  have hrow : ∀ i ∈ range form.numRows,
      d.c.coord (form.numColumns + i) * form.point x 0 (form.numColumns + i) =
        ∑ j ∈ range form.numColumns, d.multiplier form i * form.a.get i j * x j -
          d.multiplier form i * form.b.coord i := by
    intro i hi
    rw [point_slack (mem_range.mp hi), add_zero, multiplier]
    simp only [mul_assoc]
    rw [← mul_sum, ← lhs]
    ring
  rw [sum_congr rfl hrow, sum_sub_distrib, sum_comm, ← rhsSum]
  congr 1
  refine sum_congr rfl fun j _ => ?_
  rw [← sum_mul, ← columnSum]

/-- At a point of the program, the objective of any dictionary over its variables is a combination
of the rows and what is left for the columns. -/
lemma valueAt_point (hsize : form.numColumns + form.numRows ≤ d.numVariables) (x : ℕ → ℚ) :
    d.valueAt (form.point x 0) = d.constant - form.rhsSum (d.multiplier form) +
      ∑ j ∈ range form.numColumns,
        (d.c.coord j + form.columnSum (d.multiplier form) j) * x j := by
  obtain ⟨extra, hextra⟩ := Nat.exists_eq_add_of_le hsize
  have hbeyond : ∑ k ∈ range extra, d.c.coord (form.numColumns + form.numRows + k) *
      form.point x 0 (form.numColumns + form.numRows + k) = 0 :=
    sum_eq_zero fun k _ => by rw [point_beyond (Nat.le_add_right _ _), mul_zero]
  have hcolumn : ∑ j ∈ range form.numColumns, d.c.coord j * form.point x 0 j =
      ∑ j ∈ range form.numColumns, d.c.coord j * x j :=
    sum_congr rfl fun j hj => by rw [point_column (mem_range.mp hj)]
  rw [valueAt, costSum, hextra, sum_range_add, sum_range_add, hbeyond, add_zero, hcolumn,
    sum_slack_costs]
  simp only [add_mul, sum_add_distrib]
  ring

/-- Two affine functions of the columns that agree everywhere have the same constant and the same
coefficients. -/
lemma affine_ext {n : ℕ} {a b : ℚ} {f g : ℕ → ℚ}
    (h : ∀ x : ℕ → ℚ, a + ∑ j ∈ range n, f j * x j = b + ∑ j ∈ range n, g j * x j) :
    a = b ∧ ∀ j < n, f j = g j := by
  have hconstant : a = b := by simpa using h 0
  refine ⟨hconstant, fun j hj => ?_⟩
  have hunit := h (Pi.single j 1)
  simpa [Pi.single_apply, hj, hconstant] using hunit

/-! ### Evaluation -/

lemma nonbasicSum_row (hd : d.WellFormed) (hi : i < d.numVariables) (x : Coords ℚ) :
    d.nonbasicSum (d.a.get i) x = d.rowSum i x.coord := by
  rw [nonbasicSum, Scalar.sum_eq, rowSum]
  exact sum_map_nonbasics fun j hj => by rw [hd.get_of_isBasic hi hj, zero_mul]

lemma objectiveAt_eq_valueAt (hd : d.WellFormed) (x : Coords ℚ) :
    d.objectiveAt x = d.valueAt x.coord := by
  rw [objectiveAt, nonbasicSum, Scalar.sum_eq, valueAt, costSum]
  congr 1
  exact sum_map_nonbasics fun j hj => by rw [hd.coord_c_of_isBasic hj, zero_mul]

lemma size_assignment (d : Dictionary ℚ) (v : Coords ℚ) :
    (d.assignment v).size = d.numVariables :=
  Coords.size_tabulate _ _

/-- The assignment is the solution that the values of the nonbasic variables extend to. -/
lemma coord_assignment (hd : d.WellFormed) (hi : i < d.numVariables) :
    (d.assignment v).coord i = d.fill v.coord i := by
  rw [assignment, Coords.coord_tabulate, if_pos hi, fill, nonbasicSum_row hd hi]

lemma solves_assignment (hd : d.WellFormed) (v : Coords ℚ) : d.Solves (d.assignment v).coord :=
  (solves_congr fun _ hj => coord_assignment hd hj).mpr (solves_fill hd v.coord)

/-- At the basic solution every variable has its right-hand side as its value. -/
lemma coord_basicSolution (hd : d.WellFormed) (hj : j < d.numVariables) :
    d.basicSolution.coord j = d.b.coord j := by
  have hzeros : (Coords.zeros d.numVariables : Coords ℚ).coord = 0 :=
    funext fun i => Coords.coord_zeros _ i
  rw [basicSolution, coord_assignment hd hj, hzeros, fill_zero hd hj]

lemma solves_basicSolution (hd : d.WellFormed) : d.Solves d.basicSolution.coord :=
  solves_assignment hd _

lemma Feasible.coord_basicSolution_nonneg (hd : d.WellFormed) (hf : d.Feasible) (i : ℕ) :
    0 ≤ d.basicSolution.coord i := by
  rcases lt_or_ge i d.numVariables with hi | hi
  · rw [coord_basicSolution hd hi]
    exact hf.coord_b_nonneg hd hi
  · exact (Coords.coord_of_size_le ((size_assignment d _).trans_le hi)).ge

/-- Dictionaries with the same right-hand sides have the same basic solution. -/
lemma basicSolution_eq {d' : Dictionary ℚ} (hd : d.WellFormed) (hd' : d'.WellFormed)
    (hnum : d'.numVariables = d.numVariables)
    (hb : ∀ i < d.numVariables, d'.b.coord i = d.b.coord i) :
    d'.basicSolution = d.basicSolution := by
  have hsize : d'.basicSolution.size = d'.numVariables := size_assignment d' _
  refine Coords.ext_coord ?_ fun i hi => ?_
  · rw [hsize, hnum]
    exact (size_assignment d _).symm
  · rw [hsize] at hi
    rw [coord_basicSolution hd' hi, coord_basicSolution hd (hnum ▸ hi), hb i (hnum ▸ hi)]

end Dictionary

end LinProg
