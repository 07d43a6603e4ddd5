import LinProg.Proofs.Model
import LinProg.Proofs.StandardForm.Points
import LinProg.Proofs.StandardForm.Size

/-!
The canonical form of a model says what the model says, over the exact rationals.

* `ColumnMap.exists_expand`: a weighted sum as a row of columns, with what its constants become.
* `StandardForm.RowHolds`: a point satisfies a row. `contains_eval_iff` and
  `exists_constraintRows` say that the rows of a variable and of a constraint hold where its bounds
  and its relation do.
* `isFeasible_ofRows_iff`, `objectiveAt_ofRows`: what a program made of rows says.
* `Represents`, `exists_ofModel`: a model has a canonical form, whose feasible points are the
  assignments that satisfy the model, with the objective in the sign of the goal.
-/

namespace LinProg

open Finset

/-! ### Weighted sums -/

namespace ColumnMap

variable {map : ColumnMap ℚ} {sign factor constant : ℚ} {combine : ℚ → ℚ → ℚ} {terms : Terms ℚ}
  {row : Coords ℚ}

/-- A term is added to the row by the expression of its variable. -/
lemma expand_cons {id : VariableId} {weight : ℚ} {s : Substitution ℚ}
    (hs : map.substitutions[id.index]? = some s) :
    map.expand sign combine ((id, weight) :: terms) (row, constant) =
      map.expand sign combine terms
        (s.addTo (sign * weight) row, combine constant (s.offset (sign * weight))) := by
  have hfind : map.find id = .ok s := by simp [find, substitution?, hs]
  simp [expand, hfind, bind, Except.bind, pure, Except.pure]

/-- A sum over known variables becomes a row. The constants of its variables are added or
subtracted, and so the row together with the constant has the value of the sum. -/
theorem exists_expand (sign constant : ℚ) (hcombine : ∀ c o, combine c o = c + factor * o)
    (hfactor : factor * factor = 1)
    (hcolumns : ∀ s ∈ map.substitutions, ∀ c ∈ s.columns, c < row.size)
    (hknown : terms.Known map.substitutions.length) :
    ∃ row' constant', map.expand sign combine terms (row, constant) = .ok (row', constant') ∧
      row'.size = row.size ∧
      ∀ y, row'.dot y + factor * constant' =
        row.dot y + factor * constant + sign * terms.value (map.assignment y) := by
  induction terms generalizing row constant with
  | nil => exact ⟨row, constant, rfl, rfl, fun y => by simp⟩
  | cons term terms ih =>
      obtain ⟨id, weight⟩ := term
      have hid : id.index < map.substitutions.length := hknown (id, weight) (by simp)
      have hs := List.getElem?_eq_getElem hid
      set s := map.substitutions[id.index]
      have hs_columns : ∀ c ∈ s.columns, c < row.size := hcolumns s (List.getElem_mem hid)
      obtain ⟨row', constant', hrow', hsize, hvalue⟩ :=
        @ih (s.addTo (sign * weight) row) (combine constant (s.offset (sign * weight)))
          (by simpa using hcolumns) fun term hterm => hknown term (by simp [hterm])
      refine ⟨row', constant', (expand_cons hs).trans hrow', by simpa using hsize, fun y => ?_⟩
      have hadd := s.dot_addTo hs_columns (sign * weight) y
      rw [hvalue y, hcombine, Terms.value_cons, assignment_of_getElem? hs]
      linear_combination hadd + s.offset (sign * weight) * hfactor

variable (hcolumns : ∀ s ∈ map.substitutions, ∀ c ∈ s.columns, c < map.numColumns)
  (hknown : terms.Known map.substitutions.length)
include hcolumns hknown

/-- A row from the start, with the constants moved to the right-hand side. -/
lemma exists_expand_sub (sign rhs : ℚ) :
    ∃ row, map.expand sign (· - ·) terms (Coords.zeros map.numColumns, rhs) = .ok row ∧
      row.1.size = map.numColumns ∧
      ∀ y, row.1.dot y - row.2 = sign * terms.value (map.assignment y) - rhs := by
  have hcombine : ∀ c o : ℚ, c - o = c + -1 * o := fun c o => by ring
  have hstart : ∀ s ∈ map.substitutions, ∀ c ∈ s.columns,
      c < (Coords.zeros map.numColumns : Coords ℚ).size := by simpa using hcolumns
  obtain ⟨row, rhs', hexpand, hsize, hvalue⟩ :=
    exists_expand sign rhs hcombine (by norm_num) hstart hknown
  refine ⟨(row, rhs'), hexpand, by simpa using hsize, fun y => ?_⟩
  have := hvalue y
  rw [Coords.dot_zeros] at this
  linarith

/-- A row from the start, with the constants added up. -/
lemma exists_expand_add (sign : ℚ) :
    ∃ row, map.expand sign (· + ·) terms (Coords.zeros map.numColumns, 0) = .ok row ∧
      row.1.size = map.numColumns ∧
      ∀ y, row.1.dot y + row.2 = sign * terms.value (map.assignment y) := by
  have hcombine : ∀ c o : ℚ, c + o = c + 1 * o := fun c o => by ring
  have hstart : ∀ s ∈ map.substitutions, ∀ c ∈ s.columns,
      c < (Coords.zeros map.numColumns : Coords ℚ).size := by simpa using hcolumns
  obtain ⟨row, constant', hexpand, hsize, hvalue⟩ :=
    exists_expand sign 0 hcombine (by norm_num) hstart hknown
  refine ⟨(row, constant'), hexpand, by simpa using hsize, fun y => ?_⟩
  have := hvalue y
  rw [Coords.dot_zeros] at this
  linarith

end ColumnMap

/-! ### Rows -/

namespace StandardForm

variable {map : ColumnMap ℚ} {vars : List (Variable ℚ)} {v : Variable ℚ} {y : ℕ → ℚ}

/-- A point satisfies a row. -/
def RowHolds (y : ℕ → ℚ) (row : Coords ℚ × ℚ) : Prop := row.1.dot y ≤ row.2

/-- A variable with nonnegative columns lies within its bounds where its row holds, if it has
one. -/
lemma contains_eval_iff {k n : ℕ} (hk : ∀ c ∈ (Substitution.ofVariable v k).columns, c < n)
    (hy : ∀ j < n, 0 ≤ y j) :
    v.contains ((Substitution.ofVariable v k).eval y) 0 ↔
      ∀ row, boundRow? n v (Substitution.ofVariable v k) = some row → RowHolds y row := by
  rw [Variable.contains_zero_iff]
  obtain ⟨lower, hl, hs⟩ | ⟨upper, hl, hu, hs⟩ | ⟨hl, hu, hs⟩ :=
    Substitution.ofVariable_cases v k
  · rw [Variable.finiteLower_rat] at hl
    have hlt : k < n := hk k (by simp [hs])
    have hnonneg := hy k hlt
    simp [hs, hl, Substitution.eval, boundRow?_shifted, RowHolds, Coords.dot_unit hlt, hnonneg,
      le_sub_iff_add_le, add_comm]
  · rw [Variable.finiteLower_rat] at hl
    rw [Variable.finiteUpper_rat] at hu
    have hnonneg := hy k (hk k (by simp [hs]))
    simpa [hs, hl, hu, Substitution.eval, boundRow?] using hnonneg
  · rw [Variable.finiteLower_rat] at hl
    rw [Variable.finiteUpper_rat] at hu
    simp [hs, hl, hu, boundRow?]

/-- The rows of the variables hold where all of them lie within their bounds. -/
lemma forall_boundRows_iff (hy : ∀ j < (ColumnMap.ofVariables vars).numColumns, 0 ≤ y j) :
    (∀ row ∈ boundRows vars (ColumnMap.ofVariables vars), RowHolds y row) ↔
      ∀ i (v : Variable ℚ), vars[i]? = some v →
        v.contains ((ColumnMap.ofVariables vars).assignment y i) 0 := by
  have hcolumns : ∀ {i k v}, (ColumnMap.ofVariables vars).substitutions[i]? =
      some (Substitution.ofVariable v k) → ∀ c ∈ (Substitution.ofVariable v k).columns,
        c < (ColumnMap.ofVariables vars).numColumns :=
    fun hs c hc => ColumnMap.lt_numColumns (List.mem_of_getElem? hs) hc
  constructor
  · intro h i v hv
    obtain ⟨k, hs⟩ := ColumnMap.exists_substitution hv 0
    rw [ColumnMap.assignment_of_getElem? hs, contains_eval_iff (hcolumns hs) hy]
    intro row hrow
    refine h row (List.mem_filterMap.mpr ⟨(v, Substitution.ofVariable v k), ?_, hrow⟩)
    exact List.mem_of_getElem? (List.getElem?_zip_eq_some.mpr ⟨hv, hs⟩)
  · intro h row hrow
    obtain ⟨⟨v, s⟩, hmem, hrow⟩ := List.mem_filterMap.mp hrow
    obtain ⟨i, hi⟩ := List.mem_iff_getElem?.mp hmem
    obtain ⟨hv, hs⟩ := List.getElem?_zip_eq_some.mp hi
    obtain ⟨k, hk⟩ := ColumnMap.exists_substitution hv 0
    obtain rfl : Substitution.ofVariable v k = s := Option.some.inj (hk.symm.trans hs)
    have hcontains := h i v hv
    rw [ColumnMap.assignment_of_getElem? hs, contains_eval_iff (hcolumns hs) hy] at hcontains
    exact hcontains row hrow

lemma size_of_mem_boundRows {row : Coords ℚ × ℚ} (h : row ∈ boundRows vars map) :
    row.1.size = map.numColumns := by
  obtain ⟨⟨v, s⟩, -, hrow⟩ := List.mem_filterMap.mp h
  exact size_of_boundRow?_eq_some hrow

/-- The rows of a constraint, each with a cell for every column, hold where the constraint does. -/
def RowsOf (map : ColumnMap ℚ) (c : Constraint ℚ) (rows : List (Coords ℚ × ℚ)) : Prop :=
  (∀ row ∈ rows, row.1.size = map.numColumns) ∧
    ∀ y, (∀ row ∈ rows, RowHolds y row) ↔
      c.isSatisfiedBy (fun id => map.assignment y id.index) 0

/-- A constraint on known variables has such rows. -/
theorem exists_constraintRows {c : Constraint ℚ}
    (hcolumns : ∀ s ∈ map.substitutions, ∀ k ∈ s.columns, k < map.numColumns)
    (hknown : c.terms.Known map.substitutions.length) :
    ∃ rows, constraintRows map c = .ok rows ∧ RowsOf map c rows := by
  have hrow : ∀ sign ∈ (c.relation.signs : List ℚ), ∃ row,
      map.expand sign (· - ·) c.terms (Coords.zeros map.numColumns, sign * c.rhs) = .ok row ∧
        (row.1.size = map.numColumns ∧ ∀ y, RowHolds y row ↔
          sign * c.terms.value (map.assignment y) ≤ sign * c.rhs) := by
    intro sign _
    obtain ⟨row, hexpand, hsize, hvalue⟩ :=
      ColumnMap.exists_expand_sub hcolumns hknown sign (sign * c.rhs)
    refine ⟨row, hexpand, hsize, fun y => ?_⟩
    rw [RowHolds, ← sub_nonpos, hvalue y, sub_nonpos]
  obtain ⟨rows, hrows, hall⟩ := exists_mapM_eq_ok hrow
  refine ⟨rows, hrows, ?_, fun y => ?_⟩
  · exact (forall_mem_iff_of_forall₂ (P := fun _ => True) hall fun _ _ h =>
      iff_of_true trivial h.1).mp fun _ _ => trivial
  · rw [Constraint.isSatisfiedBy_zero_iff]
    exact (forall_mem_iff_of_forall₂ hall fun _ _ h => (h.2 y).symm).symm

/-! ### Programs made of rows -/

section OfRows

variable {rows : List (Coords ℚ × ℚ)} {costs : Coords ℚ} {constant : ℚ}

/-- The matrix has the cells of the rows. -/
lemma get_ofRows {i j : ℕ} {row : Coords ℚ × ℚ} (hrow : rows[i]? = some row)
    (hj : j < costs.size) : (ofRows rows costs constant).a.get i j = row.1.coord j := by
  obtain ⟨hi, -⟩ := List.getElem?_eq_some_iff.mp hrow
  rw [ofRows, DenseMatrix.get_ofFn _ (by simpa using hi) hj]
  simp [Array.getD_eq_getD_getElem?, hrow]

/-- The left-hand side of a row is the row at the point. -/
lemma lhs_ofRows {i : ℕ} {row : Coords ℚ × ℚ} (hrow : rows[i]? = some row)
    (hsize : row.1.size = costs.size) (y : ℕ → ℚ) :
    (ofRows rows costs constant).lhs i y = row.1.dot y := by
  rw [lhs, Coords.dot, hsize]
  exact sum_congr rfl fun j hj => by rw [get_ofRows hrow (mem_range.mp hj)]

lemma coord_b_ofRows {i : ℕ} {row : Coords ℚ × ℚ} (hrow : rows[i]? = some row) :
    (ofRows rows costs constant).b.coord i = row.2 := by
  simp [ofRows, Coords.coord_eq_getElem?, hrow]

/-- The feasible points of a program made of rows are the nonnegative points at which they hold. -/
lemma isFeasible_ofRows_iff (hsize : ∀ row ∈ rows, row.1.size = costs.size) (y : ℕ → ℚ) :
    (ofRows rows costs constant).IsFeasible y ↔
      (∀ j < costs.size, 0 ≤ y j) ∧ ∀ row ∈ rows, RowHolds y row := by
  constructor
  · rintro ⟨hnonneg, hle⟩
    refine ⟨hnonneg, fun row hmem => ?_⟩
    obtain ⟨i, hrow⟩ := List.mem_iff_getElem?.mp hmem
    obtain ⟨hi, -⟩ := List.getElem?_eq_some_iff.mp hrow
    have hlhs := hle i (by rwa [numRows_ofRows])
    rwa [lhs_ofRows hrow (hsize row hmem), coord_b_ofRows hrow] at hlhs
  · rintro ⟨hnonneg, hholds⟩
    refine ⟨hnonneg, fun i hi => ?_⟩
    rw [numRows_ofRows] at hi
    have hrow := List.getElem?_eq_getElem hi
    have hmem := List.getElem_mem hi
    rw [lhs_ofRows hrow (hsize _ hmem), coord_b_ofRows hrow]
    exact hholds _ hmem

lemma objectiveAt_ofRows (y : ℕ → ℚ) :
    (ofRows rows costs constant).objectiveAt y = costs.dot y + constant :=
  add_comm _ _

end OfRows

/-! ### The canonical form of a model -/

section OfModel

variable {constraints : List (Constraint ℚ)} {objective : Objective ℚ}

/-- A program with a map of its columns says what a model says: its feasible points are the
assignments that satisfy the model, and its objective is that of the model in the sign of the
goal. -/
structure Represents (form : StandardForm ℚ) (map : ColumnMap ℚ) (vars : List (Variable ℚ))
    (constraints : List (Constraint ℚ)) (objective : Objective ℚ) : Prop where
  length_eq : map.substitutions.length = vars.length
  column_lt : ∀ s ∈ map.substitutions, ∀ c ∈ s.columns, c < form.numColumns
  isFeasible_iff : ∀ y, form.IsFeasible y ↔
    (∀ j < form.numColumns, 0 ≤ y j) ∧ Satisfies vars constraints (map.assignment y)
  exists_isFeasible : ∀ x, Satisfies vars constraints x →
    ∃ y, form.IsFeasible y ∧ ∀ i < vars.length, map.assignment y i = x i
  objectiveAt_eq : ∀ y, form.objectiveAt y =
    objective.goal.sign * objective.terms.value (map.assignment y)

/-- The rows of all constraints hold where all constraints do. -/
lemma forall_flatten_iff {rowss : List (List (Coords ℚ × ℚ))}
    (h : List.Forall₂ (RowsOf map) constraints rowss) (y : ℕ → ℚ) :
    (∀ row ∈ rowss.flatten, RowHolds y row) ↔
      ∀ c ∈ constraints, c.isSatisfiedBy (fun id => map.assignment y id.index) 0 := by
  rw [forall_mem_iff_of_forall₂ h fun c rows hrows => (hrows.2 y).symm]
  simp only [List.mem_flatten]
  exact ⟨fun hall rows hrows row hrow => hall row ⟨rows, hrows, hrow⟩,
    fun hall row ⟨rows, hrows, hrow⟩ => hall rows hrows row hrow⟩

lemma size_of_mem_flatten {rowss : List (List (Coords ℚ × ℚ))}
    (h : List.Forall₂ (RowsOf map) constraints rowss) :
    ∀ row ∈ rowss.flatten, row.1.size = map.numColumns := by
  have hrows : ∀ rows ∈ rowss, ∀ row ∈ rows, row.1.size = map.numColumns :=
    (forall_mem_iff_of_forall₂ (P := fun _ => True) h fun _ _ h => iff_of_true trivial h.1).mp
      fun _ _ => trivial
  intro row hrow
  obtain ⟨rows, hmem, hrow⟩ := List.mem_flatten.mp hrow
  exact hrows rows hmem row hrow

/-- A model whose sums name only its own variables has a canonical form that says the same. -/
theorem exists_ofModel (hconstraints : ∀ c ∈ constraints, c.terms.Known vars.length)
    (hobjective : objective.terms.Known vars.length) :
    ∃ form map, ofModel vars constraints (some objective) = .ok (form, map) ∧
      Represents form map vars constraints objective := by
  set map := ColumnMap.ofVariables vars with hmap
  have hlength : map.substitutions.length = vars.length :=
    ColumnMap.length_fst_allot vars 0
  have hcolumns : ∀ s ∈ map.substitutions, ∀ c ∈ s.columns, c < map.numColumns :=
    fun s hs c hc => ColumnMap.lt_numColumns hs hc
  obtain ⟨rowss, hrowss, hrows⟩ := exists_mapM_eq_ok fun c hc =>
    exists_constraintRows hcolumns (hlength ▸ hconstraints c hc)
  obtain ⟨⟨costs, constant⟩, hcosts, hsize, hvalue⟩ :=
    ColumnMap.exists_expand_add hcolumns (hlength ▸ hobjective) objective.goal.sign
  set rows := boundRows vars map ++ rowss.flatten
  have hrowsize : ∀ row ∈ rows, row.1.size = costs.size := by
    intro row hrow
    rw [hsize]
    rcases List.mem_append.mp hrow with h | h
    · exact size_of_mem_boundRows h
    · exact size_of_mem_flatten hrows row h
  have hfeasible : ∀ y, (ofRows rows costs constant).IsFeasible y ↔
      (∀ j < costs.size, 0 ≤ y j) ∧ Satisfies vars constraints (map.assignment y) := by
    intro y
    rw [isFeasible_ofRows_iff hrowsize]
    refine and_congr_right fun hnonneg => ?_
    rw [hsize] at hnonneg
    rw [List.forall_mem_append, forall_boundRows_iff hnonneg, forall_flatten_iff hrows]
    exact ⟨fun h => ⟨h.1, h.2⟩, fun h => ⟨h.contains, h.isSatisfiedBy⟩⟩
  refine ⟨ofRows rows costs constant, map, ?_, hlength, ?_, hfeasible, ?_, ?_⟩
  · simp only [ofModel, ← hmap, hrowss, hcosts, bind, Except.bind]
    rfl
  · intro s hs c hc
    change c < costs.size
    rw [hsize]
    exact hcolumns s hs c hc
  · intro x hx
    obtain ⟨y, hnonneg, heval⟩ := ColumnMap.exists_columns hx.contains 0
    have hsame : ∀ i < vars.length, map.assignment y i = x i := by
      intro i hi
      have hs := List.getElem?_eq_getElem (hlength ▸ hi)
      rw [ColumnMap.assignment_of_getElem? hs]
      exact heval i _ hs
    refine ⟨y, (hfeasible y).mpr ⟨fun j _ => hnonneg j, ?_⟩, hsame⟩
    exact (satisfies_congr hconstraints hsame).mpr hx
  · intro y
    rw [objectiveAt_ofRows]
    exact hvalue y

end OfModel

end StandardForm

end LinProg
