import LinProg.Proofs.Dictionary.Basis

/-!
The rows of a dictionary say what the rows of its program say, over the exact rationals.

* `Dictionary.Holds`, `StandardForm.Leaves`: a vector satisfies the rows of a dictionary as they are
  evaluated, and has in each slack what the row of the program leaves, with a share of an auxiliary
  variable.
* `residual_eq`: the residual of a row at such a vector.
* `Dictionary.auxiliaryShare`, `solves_withAuxiliary_iff_leaves`: what an auxiliary variable adds to
  each row of the program, whatever variables were basic when it was attached.
* `Dictionary.Encodes`, `Dictionary.HasNoResidual`: the dictionary encodes a program.
  `encodes_program_of_advances` says so of every history, with and without the auxiliary variable;
  `residual_of_failed_phaseOne` shows where a share differs from one.
-/

namespace LinProg

open Finset

/-! ### Rows of a program at a vector -/

namespace StandardForm

variable {form : StandardForm ℚ} {x : Coords ℚ} {i : ℕ}

/-- Every slack has what its row leaves of the right-hand side, plus a share of the variable after
the slacks. -/
def Leaves (form : StandardForm ℚ) (share : ℕ → ℚ) (x : Coords ℚ) : Prop :=
  ∀ i < form.numRows, x.coord (form.numColumns + i) =
    form.b.coord i - form.lhs i x.coord + share i * x.coord (form.numColumns + form.numRows)

instance (form : StandardForm ℚ) (share : ℕ → ℚ) (x : Coords ℚ) :
    Decidable (form.Leaves share x) :=
  inferInstanceAs (Decidable (∀ i < form.numRows, _ = _))

/-- The cells of a row, each with the value of its column, sum to the left-hand side. -/
lemma sum_rowCells (hform : form.WellShaped) (hi : i < form.numRows)
    (hx : form.numColumns ≤ x.size) :
    Scalar.sum (((form.a.rowCells i).zip x).toList.map fun (a, value) => a * value) =
      form.lhs i x.coord := by
  obtain ⟨hshape, hrows, hcols⟩ := hform
  have hend : (i + 1) * form.a.cols ≤ form.a.data.size := by
    rw [hshape, hrows]
    exact Nat.mul_le_mul_right _ hi
  -- the row is cut out of the entries at its offset, and ends before the vector does
  have hcells : (((form.a.rowCells i).zip x).toList.map fun (a, value) => a * value) =
      (List.range form.numColumns).map fun j => form.a.get i j * x.coord j := by
    have hsize : (form.a.rowCells i).size = form.numColumns := by
      rw [DenseMatrix.rowCells, Array.size_extract, min_eq_left hend, Nat.succ_mul,
        Nat.add_sub_cancel_left, hcols]
    refine List.ext_getElem ?_ fun j hj _ => ?_
    · simp [hsize, hx]
    · simp only [List.length_map, Array.length_toList, Array.size_zip, hsize, lt_min_iff] at hj
      have hcell : i * form.a.cols + j < form.a.data.size := by
        rw [Nat.succ_mul] at hend
        omega
      simp [DenseMatrix.rowCells, DenseMatrix.get, Coords.coord, Array.getD, hcell, hj.2]
  rw [hcells, Scalar.sum_eq, lhs, ← List.sum_toFinset _ List.nodup_range, List.toFinset_range]

end StandardForm

namespace Dictionary

open StandardForm

variable {form : StandardForm ℚ} {tolerance : ℚ} {share : ℕ → ℚ} {objective : Coords ℚ → ℚ}
  {d r : Dictionary ℚ} {x v : Coords ℚ} {i : ℕ}

/-! ### Rows of a dictionary at a vector -/

/-- A vector satisfies every row of a dictionary. -/
def Holds (d : Dictionary ℚ) (x : Coords ℚ) : Prop :=
  ∀ i, d.isBasic i → x.coord i = d.b.coord i - d.nonbasicSum (d.a.get i) x

instance (d : Dictionary ℚ) (x : Coords ℚ) : Decidable (d.Holds x) :=
  decidable_of_iff (∀ i < d.numVariables, d.isBasic i →
      x.coord i = d.b.coord i - d.nonbasicSum (d.a.get i) x)
    ⟨fun h i hi => h i (isBasic_lt hi) hi, fun h i _ hi => h i hi⟩

lemma holds_iff_solves (hd : d.WellFormed) : d.Holds x ↔ d.Solves x.coord :=
  forall₂_congr fun i hi => by rw [nonbasicSum_row hd (isBasic_lt hi)]

lemma coversNonbasics_iff : d.coversNonbasics v ↔ ∀ j, d.isNonbasic j → j < v.size := by
  simp [coversNonbasics, mem_nonbasics]

lemma assignmentOf_eq_ok (hv : d.coversNonbasics v) :
    d.assignmentOf v = .ok (d.assignment v) := by
  simp [assignmentOf, Fault.unless, hv, bind, Except.bind, pure, Except.pure]

lemma objectiveOf_eq_ok (hx : x.size = d.numVariables) :
    d.objectiveOf x = .ok (d.objectiveAt x) := by
  have hcovers : d.coversNonbasics x := coversNonbasics_iff.mpr fun j hj => hx ▸ isNonbasic_lt hj
  simp [objectiveOf, Fault.unless, hcovers, bind, Except.bind, pure, Except.pure]

/-- Where the slacks have what their rows leave, the residual of a row is what its share differs
from one in the auxiliary variable. -/
lemma residual_eq (hrows : d.numRows = form.numRows) (hcolumns : d.numColumns = form.numColumns)
    (hform : form.WellShaped) (hx : form.numColumns ≤ x.size) (hleaves : form.Leaves share x)
    (hi : i < form.numRows) :
    d.residual form x i = |(share i - 1) * x.coord (form.numColumns + form.numRows)| := by
  rw [residual, sum_rowCells hform hi hx, Scalar.abs_eq, auxiliaryAt, hrows, hcolumns, hleaves i hi]
  congr 1
  ring

lemma largestResidualOf_eq_ok (hrows : d.numRows = form.numRows)
    (hcolumns : d.numColumns = form.numColumns) (hform : form.WellShaped)
    (hword : form.numRows < UInt64.size) (hx : form.numColumns + form.numRows ≤ x.size) :
    d.largestResidualOf form x = .ok (d.largestResidual form x) := by
  have hall : (List.range d.numRows).all (fun r => form.a.hasRow r && decide (r < form.b.size) &&
      decide (d.numColumns + r < x.size)) = true := by
    rw [List.all_eq_true]
    intro r hr
    rw [List.mem_range, hrows] at hr
    have hend : (r + 1) * form.a.cols ≤ form.a.data.size := by
      rw [hform.1, hform.2.1]
      exact Nat.mul_le_mul_right _ hr
    have hb : r < form.b.size := hr
    simp only [DenseMatrix.hasRow, hend, hb, Bool.and_eq_true, decide_eq_true_eq, and_true]
    omega
  simp only [largestResidualOf, Fault.unless, hall, if_true]
  rfl

/-! ### Encodings -/

/-- A dictionary says of its variables what a program says: its rows hold where every slack has what
its row leaves, with a share of the variable after the slacks, and each choice of the nonbasic
variables extends to such a vector, at which the dictionary has a given objective. -/
structure Encodes (d : Dictionary ℚ) (form : StandardForm ℚ) (share : ℕ → ℚ)
    (objective : Coords ℚ → ℚ) : Prop where
  holds_iff : ∀ x : Coords ℚ, x.size = d.numVariables → (d.Holds x ↔ form.Leaves share x)
  exists_assignment : ∀ v, d.coversNonbasics v → ∃ p, d.assignmentOf v = .ok p ∧
    p.size = d.numVariables ∧ (∀ j, d.isNonbasic j → p.coord j = v.coord j) ∧
    form.Leaves share p ∧ d.objectiveOf p = .ok (objective p)

/-- No choice of the nonbasic variables misses a row of the program, where the dimensions of the
program agree and its rows can be counted in 64 bits. -/
def HasNoResidual (d : Dictionary ℚ) (form : StandardForm ℚ) : Prop :=
  form.WellShaped → form.numRows < UInt64.size →
    ∀ v, d.coversNonbasics v → (d.assignmentOf v >>= d.largestResidualOf form) = .ok 0

/-- A dictionary encodes a program that has its solutions, with their objective. -/
lemma encodes_of_solves_iff (hd : d.WellFormed)
    (hsolves : ∀ x : Coords ℚ, x.size = d.numVariables →
      (d.Solves x.coord ↔ form.Leaves share x))
    (hvalue : ∀ x : Coords ℚ, x.size = d.numVariables → d.Solves x.coord →
      d.valueAt x.coord = objective x) : Encodes d form share objective where
  holds_iff x hx := (holds_iff_solves hd).trans (hsolves x hx)
  exists_assignment v hv := by
    have hp := solves_assignment hd v
    have hsize := size_assignment d v
    refine ⟨d.assignment v, assignmentOf_eq_ok hv, hsize, fun j hj => ?_,
      (hsolves _ hsize).mp hp, ?_⟩
    · rw [coord_assignment hd (isNonbasic_lt hj), fill_of_isNonbasic hj]
    · rw [objectiveOf_eq_ok hsize, objectiveAt_eq_valueAt hd, hvalue _ hsize hp]

/-- Where every share is one, or there is no auxiliary variable, there is no residual. -/
lemma Encodes.hasNoResidual (h : Encodes d form share objective)
    (hrows : d.numRows = form.numRows) (hcolumns : d.numColumns = form.numColumns)
    (hsize : form.numColumns + form.numRows ≤ d.numVariables)
    (hshare : d.numVariables = form.numColumns + form.numRows ∨ ∀ i < form.numRows, share i = 1) :
    d.HasNoResidual form := by
  intro hform hword v hv
  obtain ⟨p, hp, hpsize, -, hleaves, -⟩ := h.exists_assignment v hv
  have hresidual : ∀ i < form.numRows, d.residual form p i = 0 := by
    intro i hi
    rw [residual_eq hrows hcolumns hform (by omega) hleaves hi]
    obtain hnone | hone := hshare
    · rw [Coords.coord_of_size_le (by omega), mul_zero, abs_zero]
    · rw [hone i hi, sub_self, zero_mul, abs_zero]
  have hlargest : d.largestResidual form p = 0 := by
    rw [largestResidual, hrows]
    refine Scalar.largest_eq_zero fun y hy => ?_
    obtain ⟨i, hi, rfl⟩ := List.mem_map.mp hy
    exact hresidual i (List.mem_range.mp hi)
  rw [hp, ← hlargest]
  exact largestResidualOf_eq_ok hrows hcolumns hform hword (by omega)

/-! ### Without the auxiliary variable -/

/-- A rewriting of the dictionary of a program encodes the program. -/
lemma Rewrites.encodes (h : Rewrites (ofStandardForm form tolerance) d) :
    Encodes d form 0 fun p => form.objectiveAt p.coord := by
  refine encodes_of_solves_iff h.wellFormed (fun x _ => ?_) fun x _ hx => ?_
  · rw [h.equivalent.solves_iff, solves_ofStandardForm_iff]
    simp [StandardForm.Leaves]
  · rw [h.equivalent.valueAt_eq ((h.equivalent.solves_iff _).mp hx), valueAt_ofStandardForm]

/-! ### With the auxiliary variable -/

/-- The direction in which the basic variables grow by one and all others stay. -/
def lift (d : Dictionary ℚ) (j : ℕ) : ℚ := if d.isBasic j then 1 else 0

/-- What the auxiliary variable adds to a row of the program, where it is added to every row of a
dictionary of the program: one where the slack is basic, and the coefficients of the columns that
are. -/
def auxiliaryShare (d : Dictionary ℚ) (form : StandardForm ℚ) (i : ℕ) : ℚ :=
  d.lift (form.numColumns + i) + form.lhs i d.lift

/-- A solution with the auxiliary variable is one without it, lifted by its value. -/
lemma solves_withAuxiliary_iff_lift (hd : d.WellFormed) {x : ℕ → ℚ} :
    d.withAuxiliary.Solves x ↔ d.Solves (x + (-x d.numVariables) • d.lift) := by
  rw [solves_withAuxiliary_iff hd]
  refine forall₂_congr fun i hi => ?_
  -- the lift is zero at the nonbasic variables, so a row subtracts what it did before
  have hsum : d.rowSum i (x + (-x d.numVariables) • d.lift) = d.rowSum i x := by
    refine rowSum_congr hd (isBasic_lt hi) fun j hj => ?_
    simp [lift, not_isBasic_of_isNonbasic hj]
  have hself : d.lift i = 1 := if_pos hi
  rw [hsum, Pi.add_apply, Pi.smul_apply, hself, smul_eq_mul, mul_one]
  constructor
  · intro h
    linarith
  · intro h
    linarith

/-- In terms of the program, the auxiliary variable enters each row with its share. -/
lemma solves_withAuxiliary_iff_leaves (h : Rewrites (ofStandardForm form tolerance) d)
    {x : Coords ℚ} : d.withAuxiliary.Solves x.coord ↔ form.Leaves (d.auxiliaryShare form) x := by
  have hnum : d.numVariables = form.numColumns + form.numRows :=
    h.equivalent.numVariables_eq.trans numVariables_ofStandardForm
  rw [solves_withAuxiliary_iff_lift h.wellFormed, h.equivalent.solves_iff,
    solves_ofStandardForm_iff, hnum]
  refine forall₂_congr fun i _ => ?_
  rw [lhs_add_smul, Pi.add_apply, Pi.smul_apply, smul_eq_mul, auxiliaryShare]
  constructor
  · intro hrow
    linarith
  · intro hrow
    linarith

/-- Where the slacks are basic, every share is one. -/
lemma auxiliaryShare_of_basis_eq (hbasis : d.basis = (ofStandardForm form tolerance).basis)
    (hi : i < form.numRows) : d.auxiliaryShare form i = 1 := by
  have hlift : ∀ j, d.lift j = if form.numColumns ≤ j ∧ j < form.numColumns + form.numRows
      then 1 else 0 := by
    intro j
    have hiff : d.isBasic j ↔ form.numColumns ≤ j ∧ j < form.numColumns + form.numRows := by
      rw [← mem_basis, hbasis, mem_basis, isBasic_ofStandardForm]
    simp [lift, hiff]
  have hlhs : form.lhs i d.lift = 0 := by
    refine sum_eq_zero fun j hj => ?_
    have hj := mem_range.mp hj
    rw [hlift, if_neg (by omega), mul_zero]
  rw [auxiliaryShare, hlhs, hlift, if_pos (by omega), add_zero]

/-- A rewriting of a dictionary with the auxiliary variable encodes the program with the shares of
that dictionary, and the negated auxiliary variable. -/
lemma Rewrites.encodes_attached (h : Rewrites (ofStandardForm form tolerance) d)
    (hr : Rewrites d.withAuxiliary r) :
    Encodes r form (d.auxiliaryShare form) fun p => -p.coord (form.numColumns + form.numRows) := by
  have hnum : d.numVariables = form.numColumns + form.numRows :=
    h.equivalent.numVariables_eq.trans numVariables_ofStandardForm
  refine encodes_of_solves_iff hr.wellFormed (fun x _ => ?_) fun x _ hx => ?_
  · rw [hr.equivalent.solves_iff, solves_withAuxiliary_iff_leaves h]
  · rw [hr.equivalent.valueAt_eq ((hr.equivalent.solves_iff _).mp hx), valueAt_withAuxiliary, hnum]

/-- Where phase one finds no feasible basic solution, it leaves a dictionary that pivots and its
loop have led to from the one with the auxiliary variable. -/
lemma advances_of_phaseOneWithin_eq_false {limit : ℕ} {left : Dictionary ℚ} (hd : d.WellFormed)
    (h : (d.phaseOneWithin limit).result = .ok (false, left)) :
    Relation.ReflTransGen Advances d.withAuxiliary left := by
  cases hlow : d.lowestRow? with
  | none =>
      rw [phaseOneWithin_of_feasible (lowestRow?_eq_none_iff.mp hlow)] at h
      exact absurd (Except.ok.inj h) (by simp)
  | some k =>
      obtain ⟨outcome, r, hloop, hend⟩ := (phaseOneWithin_eq_ok_iff hd hlow).mp h
      have hlegal := legalPivot_withAuxiliary hd (of_lowestRow?_eq_some hlow).1
      have hentered : (d.withAuxiliary.pivot d.numVariables k).result = .ok (d.entered k) :=
        pivot_result_eq_ok.mpr ⟨hlegal, rfl⟩
      cases hend with
      | infeasible => exact .tail (.single (.pivot _ _ hentered)) (.simplex _ _ hloop)

/-! ### Every history -/

/-- The dictionary never drifts from its program. After any history a vector satisfies its rows
where every slack has what its row of the program leaves, and its objective is that of the program;
no choice of the nonbasic variables has a residual. While the auxiliary variable is attached, the
same holds with its share in each row, and the objective is its negation. Where the slacks were
basic when it was attached, every share is one, and again there is no residual. A failed phase one
leaves such a dictionary. -/
theorem encodes_program_of_advances (form : StandardForm ℚ) (tolerance : ℚ) (d : Dictionary ℚ)
    (h : Relation.ReflTransGen Advances (ofStandardForm form tolerance) d) :
    Encodes d form 0 (fun p => form.objectiveAt p.coord) ∧ d.HasNoResidual form ∧
    (∀ r, Relation.ReflTransGen Advances d.withAuxiliary r →
      Encodes r form (d.auxiliaryShare form) (fun p => -p.coord (form.numColumns + form.numRows)) ∧
      (d.basis = (ofStandardForm form tolerance).basis →
        (∀ i < form.numRows, d.auxiliaryShare form i = 1) ∧ r.HasNoResidual form)) ∧
    ∀ limit left, (d.phaseOneWithin limit).result = .ok (false, left) →
      Relation.ReflTransGen Advances d.withAuxiliary left := by
  have hd := rewrites_of_advances (wellFormed_ofStandardForm form tolerance) h
  have hnum : d.numVariables = form.numColumns + form.numRows :=
    hd.equivalent.numVariables_eq.trans numVariables_ofStandardForm
  refine ⟨hd.encodes, ?_, fun r hr => ?_, fun limit left hleft =>
    advances_of_phaseOneWithin_eq_false hd.wellFormed hleft⟩
  · exact hd.encodes.hasNoResidual hd.numRows_eq hd.numColumns_eq hnum.ge (.inl hnum)
  · have hr := rewrites_of_advances hd.wellFormed.withAuxiliary hr
    have hencodes := hd.encodes_attached hr
    refine ⟨hencodes, fun hbasis => ?_⟩
    have hone : ∀ i < form.numRows, d.auxiliaryShare form i = 1 :=
      fun i hi => auxiliaryShare_of_basis_eq hbasis hi
    have hsize : form.numColumns + form.numRows ≤ r.numVariables := by
      rw [numVariables_attached hr, hnum]
      exact Nat.le_succ _
    exact ⟨hone, hencodes.hasNoResidual (hr.numRows_eq.trans hd.numRows_eq)
      (hr.numColumns_eq.trans hd.numColumns_eq) hsize (.inr hone)⟩

/-- A column between one and three after a successful phase one, and one that would have to be at
least two and at most one after a failed one. -/
theorem encodes_program_between :
    (∃ ready,
      ((ofStandardForm (between 1 3) (1 / 10)).phaseOneWithin 9).result = .ok (true, ready) ∧
      Encodes ready (between 1 3) 0 (fun p => (between 1 3).objectiveAt p.coord) ∧
      (ready.assignmentOf #[7, 2, 5] >>= ready.largestResidualOf (between 1 3)) = .ok 0) ∧
    ∃ left,
      ((ofStandardForm (between 2 1) (1 / 10)).phaseOneWithin 9).result = .ok (false, left) ∧
      Encodes left (between 2 1)
        ((ofStandardForm (between 2 1) (1 / 10)).auxiliaryShare (between 2 1))
        (fun p => -p.coord 3) ∧
      (left.assignmentOf #[7, 2, 5, 4] >>= left.largestResidualOf (between 2 1)) = .ok 0 := by
  refine ⟨⟨_, by cbv, ?_, ?_⟩, ⟨_, by cbv, ?_, ?_⟩⟩
  · exact (encodes_program_of_advances (between 1 3) (1 / 10) _
      (.single (.phaseOne 9 (by cbv)))).1
  · exact (encodes_program_of_advances (between 1 3) (1 / 10) _
      (.single (.phaseOne 9 (by cbv)))).2.1 ⟨rfl, rfl, rfl⟩ (by decide) _ (by decide +kernel)
  · have h := encodes_program_of_advances (between 2 1) (1 / 10) _ .refl
    exact (h.2.2.1 _ (h.2.2.2 9 _ (by cbv))).1
  · have h := encodes_program_of_advances (between 2 1) (1 / 10) _ .refl
    exact ((h.2.2.1 _ (h.2.2.2 9 _ (by cbv))).2 rfl).2 ⟨rfl, rfl, rfl⟩ (by decide) _
      (by decide +kernel)

/-- Away from the slacks a share need not be one. After a pivot that makes the column basic, a
failed phase one leaves a point that satisfies the rows of the dictionary and misses a row of the
program with the auxiliary variable. -/
theorem residual_of_failed_phaseOne :
    ∃ d left p, ((ofStandardForm (between 2 1) (1 / 10)).pivot 0 2).result = .ok d ∧
      (d.phaseOneWithin 9).result = .ok (false, left) ∧
      left.assignmentOf (Coords.zeros 4) = .ok p ∧ left.Holds p ∧ ¬ (between 2 1).Leaves 1 p ∧
      left.largestResidualOf (between 2 1) p = .ok 1 := by
  refine ⟨_, _, _, by cbv, by cbv, by cbv, ?_, ?_, by cbv⟩
  · decide +kernel
  · decide +kernel

end Dictionary

end LinProg
