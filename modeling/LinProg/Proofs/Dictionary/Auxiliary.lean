import LinProg.Proofs.Dictionary.Run

/-!
Adding and dropping the auxiliary variable of phase one.

* `WellFormed.withAuxiliary`, `solves_withAuxiliary_iff`, `valueAt_withAuxiliary`: the shape stays,
  every row gains the auxiliary variable and the objective becomes its negation.
* `WellFormed.truncate`, `solves_truncate_iff`: dropping the last variable, where it is nonbasic,
  keeps the solutions in which it is zero.
* `objectiveSum_restoredObjective`: the objective that is put back has its old value at every
  solution.
* `withoutAuxiliary_eq_ok_iff`, `equivalent_restore`: dropping the auxiliary variable succeeds where
  it is nonbasic, and gives a dictionary that is equivalent to the one before.
-/

namespace LinProg.Dictionary

open Finset

/-! ### Adding the variable -/

section Attach

variable {α : Type} [Scalar α] {d : Dictionary α} {i j : ℕ}

@[simp] lemma numVariables_withAuxiliary (d : Dictionary α) :
    d.withAuxiliary.numVariables = d.numVariables + 1 := by
  simp [withAuxiliary, numVariables]

@[simp] lemma numRows_withAuxiliary (d : Dictionary α) :
    d.withAuxiliary.numRows = d.numRows := rfl

/-- The auxiliary variable is not basic when it is added. -/
lemma isBasic_withAuxiliary : d.withAuxiliary.isBasic j ↔ d.isBasic j := by
  rw [isBasic_iff, isBasic_iff]
  simp only [withAuxiliary, Array.getElem?_push]
  grind

lemma isNonbasic_withAuxiliary :
    d.withAuxiliary.isNonbasic j ↔ d.isNonbasic j ∨ j = d.numVariables := by
  rw [isNonbasic_iff, isNonbasic_iff]
  simp only [withAuxiliary, Array.getElem?_push, numVariables]
  grind

lemma basis_withAuxiliary (d : Dictionary α) : d.withAuxiliary.basis = d.basis := by
  ext j
  rw [mem_basis, mem_basis, isBasic_withAuxiliary]

lemma get_withAuxiliary (hd : d.WellFormed) (hi : i < d.numVariables + 1)
    (hj : j < d.numVariables + 1) :
    d.withAuxiliary.a.get i j =
      if j = d.numVariables ∧ d.isBasic i then -1
      else if i < d.numVariables ∧ j < d.numVariables then d.a.get i j else 0 := by
  rw [withAuxiliary, DenseMatrix.get_ofFn _ hi hj, DenseMatrix.get_reshaped _ hi hj,
    hd.rows_a, hd.cols_a]

lemma coord_b_withAuxiliary : d.withAuxiliary.b.coord i = d.b.coord i := by
  simp only [withAuxiliary, Coords.coord_push]
  split_ifs with h
  · exact (Coords.coord_of_size_le h.ge).symm
  · rfl

lemma coord_c_withAuxiliary (hj : j < d.numVariables + 1) :
    d.withAuxiliary.c.coord j = if j = d.numVariables then -1 else 0 := by
  simp [withAuxiliary, hj]

/-- Adding the auxiliary variable keeps the shape of a dictionary. -/
theorem WellFormed.withAuxiliary (hd : d.WellFormed) : d.withAuxiliary.WellFormed where
  rows_a := by simp [Dictionary.withAuxiliary, numVariables, DenseMatrix.ofFn]
  cols_a := by simp [Dictionary.withAuxiliary, numVariables, DenseMatrix.ofFn]
  wellShaped_a := DenseMatrix.wellShaped_ofFn _ _ _
  size_b := by simp [Dictionary.withAuxiliary, numVariables, hd.size_b]
  size_c := by simp [Dictionary.withAuxiliary, numVariables]
  card_basis := by rw [basis_withAuxiliary, hd.card_basis, numRows_withAuxiliary]
  get_of_isNonbasic {i j} hi hj := by
    have hin := isNonbasic_lt hi
    rw [numVariables_withAuxiliary] at hin hj
    have hib := not_isBasic_of_isNonbasic hi
    rw [isBasic_withAuxiliary] at hib
    rw [get_withAuxiliary hd hin hj, if_neg (fun h => hib h.2)]
    split_ifs with h
    · exact hd.get_of_isNonbasic ((isNonbasic_iff_not_isBasic h.1).mpr hib) h.2
    · rfl
  get_of_isBasic {i j} hi hj := by
    rw [isBasic_withAuxiliary] at hj
    have hjn := isBasic_lt hj
    rw [numVariables_withAuxiliary] at hi
    rw [get_withAuxiliary hd hi (by omega), if_neg (fun h => hjn.ne h.1)]
    split_ifs with h
    · exact hd.get_of_isBasic h.1 hj
    · rfl
  coord_b_of_isNonbasic {i} hi := by
    rw [coord_b_withAuxiliary]
    obtain hi | rfl := isNonbasic_withAuxiliary.mp hi
    · exact hd.coord_b_of_isNonbasic hi
    · exact Coords.coord_of_size_le hd.size_b.le
  coord_c_of_isBasic {j} hj := by
    rw [isBasic_withAuxiliary] at hj
    have hjn := isBasic_lt hj
    rw [coord_c_withAuxiliary (by omega), if_neg hjn.ne]

/-- The auxiliary variable may enter in the place of any basic one. -/
lemma legalPivot_withAuxiliary [Scalar.TellsZero α] (hd : d.WellFormed) {k : ℕ}
    (hk : d.isBasic k) : d.withAuxiliary.LegalPivot d.numVariables k where
  isNonbasic := isNonbasic_withAuxiliary.mpr (.inr rfl)
  isBasic := isBasic_withAuxiliary.mpr hk
  ne_zero := by
    have hkn := isBasic_lt hk
    rw [get_withAuxiliary hd (by omega) (by omega), if_pos ⟨rfl, hk⟩]
    exact Scalar.TellsZero.neg_one_ne_zero

end Attach

section AttachRational

variable {d : Dictionary ℚ} {x : ℕ → ℚ} {i : ℕ}

/-- A row of the grown dictionary subtracts what it did before, less the auxiliary variable. -/
lemma rowSum_withAuxiliary (hd : d.WellFormed) (hi : d.isBasic i) (x : ℕ → ℚ) :
    d.withAuxiliary.rowSum i x = d.rowSum i x - x d.numVariables := by
  have hin := isBasic_lt hi
  rw [rowSum, numVariables_withAuxiliary, sum_range_succ,
    get_withAuxiliary hd (by omega) (Nat.lt_succ_self _), if_pos ⟨rfl, hi⟩, neg_one_mul,
    ← sub_eq_add_neg, rowSum]
  congr 1
  refine sum_congr rfl fun j hj => ?_
  have hj := mem_range.mp hj
  rw [get_withAuxiliary hd (by omega) (by omega), if_neg (fun h => hj.ne h.1), if_pos ⟨hin, hj⟩]

/-- The solutions of the grown dictionary miss each row by the auxiliary variable. -/
lemma solves_withAuxiliary_iff (hd : d.WellFormed) :
    d.withAuxiliary.Solves x ↔
      ∀ i, d.isBasic i → x i = d.b.coord i - d.rowSum i x + x d.numVariables := by
  have hrow : ∀ i, d.isBasic i →
      d.withAuxiliary.b.coord i - d.withAuxiliary.rowSum i x =
        d.b.coord i - d.rowSum i x + x d.numVariables := by
    intro i hi
    rw [coord_b_withAuxiliary, rowSum_withAuxiliary hd hi]
    ring
  constructor
  · intro h i hi
    rw [← hrow i hi]
    exact h i (isBasic_withAuxiliary.mpr hi)
  · intro h i hi
    rw [isBasic_withAuxiliary] at hi
    rw [hrow i hi]
    exact h i hi

/-- The objective of the grown dictionary is the negation of the auxiliary variable. -/
lemma valueAt_withAuxiliary (d : Dictionary ℚ) (x : ℕ → ℚ) :
    d.withAuxiliary.valueAt x = -x d.numVariables := by
  have hconstant : d.withAuxiliary.constant = 0 := rfl
  have hcost : ∀ j ∈ range (d.numVariables + 1), d.withAuxiliary.c.coord j * x j =
      if j = d.numVariables then -x d.numVariables else 0 := by
    intro j hj
    rw [coord_c_withAuxiliary (mem_range.mp hj)]
    split_ifs with h
    · rw [h, neg_one_mul]
    · rw [zero_mul]
  rw [valueAt, costSum, numVariables_withAuxiliary, sum_congr rfl hcost, sum_ite_eq',
    if_pos (mem_range.mpr (Nat.lt_succ_self _)), hconstant, zero_add]

end AttachRational

/-! ### Dropping the variable -/

section Truncate

variable {α : Type} [Scalar α] {d : Dictionary α} {i j n : ℕ}

@[simp] lemma numVariables_truncate (hn : n ≤ d.numVariables) :
    (d.truncate n).numVariables = n := by
  simpa [truncate, numVariables] using hn

lemma isBasic_truncate : (d.truncate n).isBasic j ↔ d.isBasic j ∧ j < n := by
  rw [isBasic_iff, isBasic_iff]
  simp only [truncate, Array.getElem?_extract]
  grind

lemma isNonbasic_truncate : (d.truncate n).isNonbasic j ↔ d.isNonbasic j ∧ j < n := by
  rw [isNonbasic_iff, isNonbasic_iff]
  simp only [truncate, Array.getElem?_extract]
  grind

lemma get_truncate (hd : d.WellFormed) (hn : n ≤ d.numVariables) (hi : i < n) (hj : j < n) :
    (d.truncate n).a.get i j = d.a.get i j := by
  rw [truncate, DenseMatrix.get_reshaped _ hi hj, hd.rows_a, hd.cols_a,
    if_pos ⟨hi.trans_le hn, hj.trans_le hn⟩]

lemma coord_b_truncate (hi : i < n) : (d.truncate n).b.coord i = d.b.coord i := by
  rw [truncate, Coords.coord_extract, if_pos hi]

/-- Where the last variable is nonbasic, dropping it keeps the basic ones. -/
lemma basis_truncate (hn : d.numVariables = n + 1) (hlast : d.isNonbasic n) :
    (d.truncate n).basis = d.basis := by
  ext j
  rw [mem_basis, mem_basis, isBasic_truncate]
  refine ⟨fun h => h.1, fun h => ⟨h, ?_⟩⟩
  have hjn := isBasic_lt h
  have hne := ne_of_isBasic_of_isNonbasic h hlast
  omega

/-- An objective over the first `n` variables that is zero at the basic ones completes the shape of
a dictionary whose last variable is dropped. -/
theorem WellFormed.truncate (hd : d.WellFormed) (hn : d.numVariables = n + 1)
    (hlast : d.isNonbasic n) {c : Coords α} (hsize : c.size = n)
    (hc : ∀ j, d.isBasic j → c.coord j = 0) (constant : α) :
    ({ d.truncate n with c := c, constant := constant } : Dictionary α).WellFormed := by
  have hle : n ≤ d.numVariables := hn ▸ Nat.le_succ n
  have hnum : (d.truncate n).numVariables = n := numVariables_truncate hle
  have hbasic : ∀ {j}, (d.truncate n).isBasic j → d.isBasic j := fun h => (isBasic_truncate.mp h).1
  have hnonbasic : ∀ {j}, (d.truncate n).isNonbasic j → d.isNonbasic j ∧ j < n :=
    isNonbasic_truncate.mp
  exact
    { rows_a := (DenseMatrix.rows_reshaped _ _ _).trans hnum.symm
      cols_a := (DenseMatrix.cols_reshaped _ _ _).trans hnum.symm
      wellShaped_a := DenseMatrix.wellShaped_reshaped _ _ _
      size_b := by
        refine Eq.trans ?_ hnum.symm
        simp [Dictionary.truncate, hd.size_b, hle]
      size_c := hsize.trans hnum.symm
      card_basis := (congrArg card (basis_truncate hn hlast)).trans hd.card_basis
      get_of_isNonbasic := fun {i j} hi hj => by
        have hj : j < n := hnum ▸ hj
        obtain ⟨hi, hin⟩ := hnonbasic hi
        exact (get_truncate hd hle hin hj).trans (hd.get_of_isNonbasic hi (hj.trans_le hle))
      get_of_isBasic := fun {i j} hi hj => by
        have hi : i < n := hnum ▸ hi
        obtain ⟨hj, hjn⟩ := isBasic_truncate.mp hj
        exact (get_truncate hd hle hi hjn).trans (hd.get_of_isBasic (hi.trans_le hle) hj)
      coord_b_of_isNonbasic := fun {i} hi => by
        obtain ⟨hi, hin⟩ := hnonbasic hi
        exact (coord_b_truncate hin).trans (hd.coord_b_of_isNonbasic hi)
      coord_c_of_isBasic := fun {j} hj => hc j (hbasic hj) }

end Truncate

section TruncateRational

variable {d : Dictionary ℚ} {x : ℕ → ℚ} {i n : ℕ}

/-- The solutions without the last variable are those in which it is zero. -/
lemma solves_truncate_iff (hd : d.WellFormed) (hn : d.numVariables = n + 1)
    (hlast : d.isNonbasic n) (hx : x n = 0) : (d.truncate n).Solves x ↔ d.Solves x := by
  have hle : n ≤ d.numVariables := hn ▸ Nat.le_succ n
  have hbasic : ∀ i, (d.truncate n).isBasic i ↔ d.isBasic i := fun i => by
    rw [← mem_basis, basis_truncate hn hlast, mem_basis]
  have hrow : ∀ i, d.isBasic i → (d.truncate n).b.coord i - (d.truncate n).rowSum i x =
      d.b.coord i - d.rowSum i x := by
    intro i hi
    have hin : i < n := (isBasic_truncate.mp ((hbasic i).mpr hi)).2
    rw [coord_b_truncate hin, rowSum, rowSum, numVariables_truncate hle, hn, sum_range_succ, hx,
      mul_zero, add_zero]
    congr 1
    exact sum_congr rfl fun j hj => by rw [get_truncate hd hle hin (mem_range.mp hj)]
  constructor
  · intro h i hi
    rw [← hrow i hi]
    exact h i ((hbasic i).mpr hi)
  · intro h i hi
    rw [hbasic] at hi
    rw [hrow i hi]
    exact h i hi

end TruncateRational

/-! ### Putting the objective back -/

section Restore

variable {α : Type} [Scalar α] {d saved : Dictionary α} {objective : Coords α × α} {cost : α}
  {i j n : ℕ}

/-- An objective has a cost for each of `n` variables and none for a basic one. -/
structure Supports (d : Dictionary α) (n : ℕ) (objective : Coords α × α) : Prop where
  size_eq : objective.1.size = n
  coord_eq_zero : ∀ j, d.isBasic j → objective.1.coord j = 0

lemma Supports.addCost (h : d.Supports n objective) (cost : α) (i : ℕ) :
    d.Supports n (d.addCost cost objective i) := by
  obtain ⟨c, constant⟩ := objective
  by_cases hi : d.isBasic i
  · simp only [Dictionary.addCost, hi, if_true]
    refine ⟨by simpa using h.size_eq, fun j hj => ?_⟩
    have hjn := isNonbasic_eq_false hj
    simp [hjn, h.coord_eq_zero j hj]
  · simp only [Dictionary.addCost, hi, Bool.false_eq_true, if_false]
    refine ⟨by simpa using h.size_eq, fun j hj => ?_⟩
    have hij : i ≠ j := fun hij => hi (hij ▸ hj)
    rw [Coords.coord_modify, if_neg (fun hc => hij hc.1)]
    exact h.coord_eq_zero j hj

lemma Supports.foldl (h : d.Supports n objective) (cost : ℕ → α) (xs : List ℕ) :
    d.Supports n (xs.foldl (fun objective i => d.addCost (cost i) objective i) objective) := by
  induction xs generalizing objective with
  | nil => exact h
  | cons i xs ih => exact ih (h.addCost (cost i) i)

/-- The objective that is put back has no cost for a basic variable. -/
lemma supports_restoredObjective (d saved : Dictionary α) :
    d.Supports saved.numVariables (d.restoredObjective saved) :=
  Supports.foldl ⟨Coords.size_zeros _, fun j _ => Coords.coord_zeros _ j⟩ _ _

end Restore

section RestoreRational

variable {d saved : Dictionary ℚ} {objective : Coords ℚ × ℚ} {x : ℕ → ℚ} {i n : ℕ}

/-- The value of an objective over `n` variables. -/
def objectiveSum (n : ℕ) (objective : Coords ℚ × ℚ) (x : ℕ → ℚ) : ℚ :=
  objective.2 + ∑ j ∈ range n, objective.1.coord j * x j

/-- At a solution, adding the cost of a variable adds its multiple of the variable, whether the
variable is read off directly or through its row. -/
lemma objectiveSum_addCost (hd : d.WellFormed) (hx : d.Solves x) {cost : ℚ}
    (h : objective.1.size = d.numVariables) (hi : i < d.numVariables) :
    objectiveSum d.numVariables (d.addCost cost objective i) x =
      objectiveSum d.numVariables objective x + cost * x i := by
  obtain ⟨c, constant⟩ := objective
  dsimp only at h
  by_cases hb : d.isBasic i
  · have hcell : ∀ j ∈ range d.numVariables,
        Coords.coord (Coords.tabulate c.size fun j =>
            if d.isNonbasic j then c.coord j - cost * d.a.get i j else c.coord j) j * x j =
          c.coord j * x j - cost * (d.a.get i j * x j) := by
      intro j hj
      rw [Coords.coord_tabulate, h, if_pos (mem_range.mp hj)]
      rcases isBasic_or_isNonbasic (mem_range.mp hj) with hjb | hjn
      · have hjn := isNonbasic_eq_false hjb
        simp [hjn, hd.get_of_isBasic hi hjb]
      · simp only [hjn, if_true]
        ring
    have hxi := hx i hb
    rw [rowSum] at hxi
    simp only [addCost, hb, if_true, objectiveSum]
    rw [sum_congr rfl hcell, sum_sub_distrib, ← mul_sum, hxi]
    ring
  · have hcell : ∀ j ∈ range d.numVariables,
        Coords.coord (c.modify i (· + cost)) j * x j =
          c.coord j * x j + if j = i then cost * x i else 0 := by
      intro j hj
      rw [Coords.coord_modify, h]
      by_cases hij : i = j
      · subst hij
        rw [if_pos ⟨rfl, mem_range.mp hj⟩, if_pos rfl]
        ring
      · rw [if_neg (fun hc => hij hc.1), if_neg (fun hc => hij hc.symm), add_zero]
    simp only [addCost, hb, Bool.false_eq_true, if_false, objectiveSum]
    rw [sum_congr rfl hcell, sum_add_distrib, sum_ite_eq', if_pos (mem_range.mpr hi)]
    ring

lemma objectiveSum_foldl (hd : d.WellFormed) (hx : d.Solves x) (cost : ℕ → ℚ) {xs : List ℕ}
    (hxs : ∀ i ∈ xs, i < d.numVariables) (h : d.Supports d.numVariables objective) :
    objectiveSum d.numVariables
        (xs.foldl (fun objective i => d.addCost (cost i) objective i) objective) x =
      objectiveSum d.numVariables objective x + (xs.map fun i => cost i * x i).sum := by
  induction xs generalizing objective with
  | nil => simp
  | cons i xs ih =>
      rw [List.foldl_cons, ih (fun j hj => hxs j (List.mem_cons_of_mem i hj)) (h.addCost _ i),
        objectiveSum_addCost hd hx h.size_eq (hxs i (by simp)), List.map_cons, List.sum_cons,
        add_assoc]

/-- A sum over the list of nonbasic variables is the sum over all variables, where the basic ones
add nothing. -/
lemma sum_map_nonbasics {f : ℕ → ℚ} (hf : ∀ j, d.isBasic j → f j = 0) :
    (d.nonbasics.map f).sum = ∑ j ∈ range d.numVariables, f j := by
  have hnodup : d.nonbasics.Nodup := List.nodup_range.filter _
  rw [← List.sum_toFinset f hnodup]
  refine sum_subset (fun j hj => ?_) fun j hj hnot => ?_
  · rw [List.mem_toFinset, mem_nonbasics] at hj
    exact mem_range.mpr (isNonbasic_lt hj)
  · rw [List.mem_toFinset, mem_nonbasics] at hnot
    exact hf j ((isBasic_or_isNonbasic (mem_range.mp hj)).resolve_right hnot)

/-- The objective that is put back has the value that it had in the dictionary it was saved from. -/
lemma objectiveSum_restoredObjective (hd : d.WellFormed) (hsaved : saved.WellFormed)
    (hnum : saved.numVariables = d.numVariables) (hx : d.Solves x) :
    objectiveSum d.numVariables (d.restoredObjective saved) x = saved.valueAt x := by
  have hstart : d.Supports d.numVariables
      ((Coords.zeros saved.numVariables : Coords ℚ), saved.constant) :=
    ⟨(Coords.size_zeros _).trans hnum, fun j _ => Coords.coord_zeros _ j⟩
  have hlt : ∀ i ∈ saved.nonbasics, i < d.numVariables := fun i hi =>
    hnum ▸ isNonbasic_lt (mem_nonbasics.mp hi)
  rw [restoredObjective, objectiveSum_foldl hd hx saved.c.coord hlt hstart,
    sum_map_nonbasics fun j hj => by rw [hsaved.coord_c_of_isBasic hj, zero_mul]]
  simp [objectiveSum, valueAt, costSum]

end RestoreRational

/-! ### Back to the dictionary before -/

section Without

variable {α : Type} [Scalar α] {d saved restored : Dictionary α}

/-- The auxiliary variable is dropped exactly where it is nonbasic. -/
lemma withoutAuxiliary_eq_ok_iff :
    d.withoutAuxiliary saved = .ok restored ↔
      ¬ d.isBasic saved.numVariables ∧ d.restore saved = restored := by
  simp only [withoutAuxiliary, bind_eq_ok, Fault.unless_eq_ok, Bool.not_eq_true', pure,
    Except.pure, Except.ok.injEq, exists_const, Bool.not_eq_true]

variable (hd : d.WellFormed) (hnum : d.numVariables = saved.numVariables + 1)
  (hlast : d.isNonbasic saved.numVariables)
include hnum

lemma numVariables_restore : (d.restore saved).numVariables = saved.numVariables :=
  numVariables_truncate (hnum ▸ Nat.le_succ _)

include hlast hd

/-- Dropping the auxiliary variable keeps the shape of a dictionary. -/
theorem WellFormed.restore : (d.restore saved).WellFormed := by
  have hsupports := supports_restoredObjective (d.truncate saved.numVariables) saved
  refine hd.truncate hnum hlast hsupports.size_eq (fun j hj => hsupports.coord_eq_zero j ?_) _
  rwa [← mem_basis, basis_truncate hnum hlast, mem_basis]

end Without

section WithoutRational

variable {d saved : Dictionary ℚ} {x : ℕ → ℚ}

/-- Rewriting the grown dictionary and then dropping the auxiliary variable is a rewriting of the
dictionary before. -/
theorem equivalent_restore (hsaved : saved.WellFormed) (hd : d.WellFormed)
    (h : Equivalent saved.withAuxiliary d) (hlast : d.isNonbasic saved.numVariables) :
    Equivalent saved (d.restore saved) := by
  have hnum : d.numVariables = saved.numVariables + 1 :=
    h.numVariables_eq.trans (numVariables_withAuxiliary saved)
  have hrestore := hd.restore hnum hlast
  have hsolves : ∀ x, (d.restore saved).Solves x ↔ saved.Solves x := by
    intro x
    -- the auxiliary variable is none of either dictionary, and may as well be zero
    have hzero := Function.update_self saved.numVariables 0 x
    have hsame : ∀ j < saved.numVariables, Function.update x saved.numVariables 0 j = x j :=
      fun j hj => Function.update_of_ne hj.ne 0 x
    calc (d.restore saved).Solves x
        ↔ (d.truncate saved.numVariables).Solves (Function.update x saved.numVariables 0) :=
          solves_congr fun j hj => (hsame j (numVariables_restore hnum ▸ hj)).symm
      _ ↔ d.Solves (Function.update x saved.numVariables 0) :=
          solves_truncate_iff hd hnum hlast hzero
      _ ↔ saved.withAuxiliary.Solves (Function.update x saved.numVariables 0) := h.solves_iff _
      _ ↔ saved.Solves (Function.update x saved.numVariables 0) := by
          rw [solves_withAuxiliary_iff hsaved, hzero]
          simp only [add_zero]
          rfl
      _ ↔ saved.Solves x := solves_congr hsame
  refine ⟨numVariables_restore hnum, hsolves, fun {x} hx => ?_⟩
  have hvalue := objectiveSum_restoredObjective hrestore hsaved
    (numVariables_restore hnum).symm ((hsolves x).mpr hx)
  rw [← hvalue]
  rfl

end WithoutRational

end LinProg.Dictionary
