import LinProg.Proofs.DenseMatrix
import LinProg.Proofs.Traced
import LinProg.Dictionary.PhaseOne

/-!
The shape that every dictionary keeps, whatever the arithmetic does.

* `Dictionary.basis`: the basic variables as a set.
* `Dictionary.WellFormed`: all parts have the size of the dictionary, there is a basic variable for
  each row, and the cells that the rows and the objective do not use are zero.
* `wellFormed_ofStandardForm`, `WellFormed.exchange`: the dictionary of a program has the shape, and
  an exchange of a nonbasic for a basic variable keeps it.
* `LegalPivot`, `pivot_result_eq_ok`: what a pivot asks for, and that it then gives the exchange.
-/

namespace LinProg.Dictionary

variable {α : Type} [Scalar α] {d : Dictionary α} {e l i j : ℕ}

/-! ### Roles -/

omit [Scalar α] in
lemma isBasic_iff : d.isBasic j ↔ d.roles[j]? = some .basic := by simp [isBasic]

omit [Scalar α] in
lemma isNonbasic_iff : d.isNonbasic j ↔ d.roles[j]? = some .nonbasic := by simp [isNonbasic]

omit [Scalar α] in
lemma isBasic_lt (h : d.isBasic j) : j < d.numVariables := by
  by_contra hj
  rw [isBasic_iff, Array.getElem?_eq_none (Nat.le_of_not_lt hj)] at h
  exact absurd h (by simp)

omit [Scalar α] in
lemma isNonbasic_lt (h : d.isNonbasic j) : j < d.numVariables := by
  by_contra hj
  rw [isNonbasic_iff, Array.getElem?_eq_none (Nat.le_of_not_lt hj)] at h
  exact absurd h (by simp)

omit [Scalar α] in
/-- Every variable of a dictionary has one of the two roles. -/
lemma isNonbasic_iff_not_isBasic (hj : j < d.numVariables) : d.isNonbasic j ↔ ¬ d.isBasic j := by
  rw [isNonbasic_iff, isBasic_iff, Array.getElem?_eq_getElem hj]
  cases d.roles[j] <;> simp

omit [Scalar α] in
lemma not_isBasic_of_isNonbasic (h : d.isNonbasic j) : ¬ d.isBasic j :=
  (isNonbasic_iff_not_isBasic (isNonbasic_lt h)).mp h

omit [Scalar α] in
lemma isNonbasic_eq_false (h : d.isBasic j) : d.isNonbasic j = false := by
  simpa using fun hj => not_isBasic_of_isNonbasic hj h

omit [Scalar α] in
lemma ne_of_isBasic_of_isNonbasic (hi : d.isBasic i) (hj : d.isNonbasic j) : i ≠ j := by
  rintro rfl
  exact not_isBasic_of_isNonbasic hj hi

omit [Scalar α] in
lemma isBasic_or_isNonbasic (hj : j < d.numVariables) : d.isBasic j ∨ d.isNonbasic j := by
  rw [isNonbasic_iff_not_isBasic hj]
  exact em _

omit [Scalar α] in
lemma mem_basics : j ∈ d.basics ↔ d.isBasic j := by
  simp only [basics, List.mem_filter, List.mem_range]
  exact ⟨fun h => h.2, fun h => ⟨isBasic_lt h, h⟩⟩

omit [Scalar α] in
lemma mem_nonbasics : j ∈ d.nonbasics ↔ d.isNonbasic j := by
  simp only [nonbasics, List.mem_filter, List.mem_range]
  exact ⟨fun h => h.2, fun h => ⟨isNonbasic_lt h, h⟩⟩

/-- The set of basic variables. -/
def basis (d : Dictionary α) : Finset ℕ := (Finset.range d.numVariables).filter (d.isBasic ·)

omit [Scalar α] in
lemma mem_basis : j ∈ d.basis ↔ d.isBasic j := by
  simp only [basis, Finset.mem_filter, Finset.mem_range]
  exact ⟨fun h => h.2, fun h => ⟨isBasic_lt h, h⟩⟩

omit [Scalar α] in
lemma toFinset_basics (d : Dictionary α) : d.basics.toFinset = d.basis := by
  ext j
  rw [List.mem_toFinset, mem_basics, mem_basis]

omit [Scalar α] in
/-- The basic variables are listed once each. -/
lemma length_basics (d : Dictionary α) : d.basics.length = d.basis.card := by
  rw [← toFinset_basics, List.toFinset_card_of_nodup]
  exact List.nodup_range.filter _

/-! ### The roles after an exchange -/

lemma roles_exchange (d : Dictionary α) (e l j : ℕ) :
    (d.exchange e l).roles[j]? =
      if j = l ∧ j < d.numVariables then some .nonbasic
      else if j = e ∧ j < d.numVariables then some .basic else d.roles[j]? := by
  simp only [exchange, numVariables, Array.getElem?_setIfInBounds, Array.size_setIfInBounds]
  grind

/-- After an exchange the entering variable is basic and the leaving one is not. -/
lemma isBasic_exchange (he : d.isNonbasic e) (hl : d.isBasic l) :
    (d.exchange e l).isBasic j ↔ j = e ∨ d.isBasic j ∧ j ≠ l := by
  have hne := ne_of_isBasic_of_isNonbasic hl he
  have := isNonbasic_lt he
  have := isBasic_lt hl
  rw [isBasic_iff, isBasic_iff, roles_exchange]
  grind

/-- After an exchange the leaving variable is nonbasic and the entering one is not. -/
lemma isNonbasic_exchange (he : d.isNonbasic e) (hl : d.isBasic l) :
    (d.exchange e l).isNonbasic j ↔ j = l ∨ d.isNonbasic j ∧ j ≠ e := by
  have hne := ne_of_isBasic_of_isNonbasic hl he
  have := isNonbasic_lt he
  have := isBasic_lt hl
  rw [isNonbasic_iff, isNonbasic_iff, roles_exchange]
  grind

lemma basis_exchange (he : d.isNonbasic e) (hl : d.isBasic l) :
    (d.exchange e l).basis = insert e (d.basis.erase l) := by
  ext j
  rw [mem_basis, isBasic_exchange he hl, Finset.mem_insert, Finset.mem_erase, mem_basis,
    and_comm (a := j ≠ l)]

/-- An exchange keeps the number of basic variables. -/
lemma card_basis_exchange (he : d.isNonbasic e) (hl : d.isBasic l) :
    (d.exchange e l).basis.card = d.basis.card := by
  have hmem : e ∉ d.basis.erase l := fun h =>
    not_isBasic_of_isNonbasic he (mem_basis.mp (Finset.mem_of_mem_erase h))
  rw [basis_exchange he hl, Finset.card_insert_of_notMem hmem,
    Finset.card_erase_add_one (mem_basis.mpr hl)]

/-! ### The shape -/

/-- All parts have the size of the dictionary, each row has a basic variable, and the cells that
are not used are zero: rows and right-hand sides of nonbasic variables, columns and costs of basic
ones. -/
structure WellFormed (d : Dictionary α) : Prop where
  rows_a : d.a.rows = d.numVariables
  cols_a : d.a.cols = d.numVariables
  wellShaped_a : d.a.WellShaped
  size_b : d.b.size = d.numVariables
  size_c : d.c.size = d.numVariables
  card_basis : d.basis.card = d.numRows
  get_of_isNonbasic : ∀ {i j}, d.isNonbasic i → j < d.numVariables → d.a.get i j = 0
  get_of_isBasic : ∀ {i j}, i < d.numVariables → d.isBasic j → d.a.get i j = 0
  coord_b_of_isNonbasic : ∀ {i}, d.isNonbasic i → d.b.coord i = 0
  coord_c_of_isBasic : ∀ {j}, d.isBasic j → d.c.coord j = 0

/-- A dictionary of this shape passes the test for one. -/
lemma WellFormed.isPartition (hd : d.WellFormed) : d.isPartition := by
  simp [Dictionary.isPartition, hd.rows_a, hd.cols_a, hd.size_b, hd.size_c, length_basics,
    hd.card_basis]

/-! ### The dictionary of a program -/

section OfStandardForm

variable {form : StandardForm α} {tolerance : α}

@[simp] lemma numVariables_ofStandardForm :
    (ofStandardForm form tolerance).numVariables = form.numColumns + form.numRows := by
  simp [ofStandardForm, numVariables]

/-- In the dictionary of a program the slacks are basic. -/
lemma isBasic_ofStandardForm :
    (ofStandardForm form tolerance).isBasic j ↔
      form.numColumns ≤ j ∧ j < form.numColumns + form.numRows := by
  rw [isBasic_iff]
  simp only [ofStandardForm, Array.getElem?_ofFn]
  grind

/-- In the dictionary of a program the columns are nonbasic. -/
lemma isNonbasic_ofStandardForm :
    (ofStandardForm form tolerance).isNonbasic j ↔ j < form.numColumns := by
  rw [isNonbasic_iff]
  simp only [ofStandardForm, Array.getElem?_ofFn]
  grind

lemma get_ofStandardForm (hi : i < form.numColumns + form.numRows)
    (hj : j < form.numColumns + form.numRows) :
    (ofStandardForm form tolerance).a.get i j =
      if form.numColumns ≤ i ∧ j < form.numColumns then form.a.get (i - form.numColumns) j
      else 0 :=
  DenseMatrix.get_ofFn _ hi hj

lemma coord_b_ofStandardForm :
    (ofStandardForm form tolerance).b.coord i =
      if form.numColumns ≤ i then form.b.coord (i - form.numColumns) else 0 := by
  have hbeyond : form.numRows ≤ i - form.numColumns → form.b.coord (i - form.numColumns) = 0 :=
    Coords.coord_of_size_le
  simp only [ofStandardForm, Coords.coord_tabulate]
  grind

lemma coord_c_ofStandardForm :
    (ofStandardForm form tolerance).c.coord j = form.c.coord j := by
  have hbeyond : form.numColumns ≤ j → form.c.coord j = 0 := Coords.coord_of_size_le
  simp only [ofStandardForm, Coords.coord_tabulate]
  grind

lemma basis_ofStandardForm :
    (ofStandardForm form tolerance).basis =
      Finset.Ico form.numColumns (form.numColumns + form.numRows) := by
  ext j
  rw [mem_basis, isBasic_ofStandardForm, Finset.mem_Ico]

/-- The dictionary of a program has the shape of a dictionary. -/
theorem wellFormed_ofStandardForm (form : StandardForm α) (tolerance : α) :
    (ofStandardForm form tolerance).WellFormed where
  rows_a := by simp [ofStandardForm, numVariables, DenseMatrix.ofFn]
  cols_a := by simp [ofStandardForm, numVariables, DenseMatrix.ofFn]
  wellShaped_a := DenseMatrix.wellShaped_ofFn _ _ _
  size_b := by simp [ofStandardForm, numVariables]
  size_c := by simp [ofStandardForm, numVariables]
  card_basis := by
    rw [basis_ofStandardForm, Nat.card_Ico, Nat.add_sub_cancel_left]
    rfl
  get_of_isNonbasic hi hj := by
    rw [isNonbasic_ofStandardForm] at hi
    rw [numVariables_ofStandardForm] at hj
    rw [get_ofStandardForm (by omega) hj, if_neg (by omega)]
  get_of_isBasic hi hj := by
    rw [isBasic_ofStandardForm] at hj
    rw [numVariables_ofStandardForm] at hi
    rw [get_ofStandardForm hi hj.2, if_neg (by omega)]
  coord_b_of_isNonbasic hi := by
    rw [isNonbasic_ofStandardForm] at hi
    rw [coord_b_ofStandardForm, if_neg (by omega)]
  coord_c_of_isBasic hj := by
    rw [isBasic_ofStandardForm] at hj
    rw [coord_c_ofStandardForm]
    exact Coords.coord_of_size_le hj.1

end OfStandardForm

/-! ### The exchange keeps the shape -/

lemma exchangedCell_of_isNonbasic (hd : d.WellFormed) (he : d.isNonbasic e) (hl : d.isBasic l)
    (hi : (d.exchange e l).isNonbasic i) (hj : j < d.numVariables) :
    d.exchangedCell e l i j = 0 := by
  rw [isNonbasic_exchange he hl] at hi
  obtain rfl | ⟨hi, hie⟩ := hi
  · simp [exchangedCell]
  · have hil := (ne_of_isBasic_of_isNonbasic hl hi).symm
    simp [exchangedCell, hil, hie, not_isBasic_of_isNonbasic hi, hd.get_of_isNonbasic hi hj]

lemma exchangedCell_of_isBasic (hd : d.WellFormed) (he : d.isNonbasic e) (hl : d.isBasic l)
    (hi : i < d.numVariables) (hj : (d.exchange e l).isBasic j) :
    d.exchangedCell e l i j = 0 := by
  rw [isBasic_exchange he hl] at hj
  have hjl : j ≠ l := by
    rintro rfl
    exact hj.elim (ne_of_isBasic_of_isNonbasic hl he) fun h => h.2 rfl
  obtain rfl | ⟨hj, -⟩ := hj
  · -- the column of the entering variable: its own row was unused, the other rows are cleared
    have hjj := hd.get_of_isNonbasic he (isNonbasic_lt he)
    by_cases hib : d.isBasic i
    · have hij := ne_of_isBasic_of_isNonbasic hib he
      simp [exchangedCell, hij, hib]
    · have hin := (isNonbasic_iff_not_isBasic hi).mpr hib
      simp [exchangedCell, solvedCell, hjl, hjj, hib, hd.get_of_isNonbasic hin (isNonbasic_lt he)]
  · have hje := ne_of_isBasic_of_isNonbasic hj he
    have hjn := isNonbasic_eq_false hj
    have hej := hd.get_of_isBasic (isNonbasic_lt he) hj
    simp [exchangedCell, solvedCell, hjl, hje, hjn, hej, hd.get_of_isBasic hi hj]

/-- An exchange of a nonbasic for a basic variable keeps the shape of a dictionary. -/
theorem WellFormed.exchange (hd : d.WellFormed) (he : d.isNonbasic e) (hl : d.isBasic l) :
    (d.exchange e l).WellFormed where
  rows_a := by simp [Dictionary.exchange, numVariables, DenseMatrix.ofFn]
  cols_a := by simp [Dictionary.exchange, numVariables, DenseMatrix.ofFn]
  wellShaped_a := DenseMatrix.wellShaped_ofFn _ _ _
  size_b := by simp [Dictionary.exchange, numVariables]
  size_c := by simp [Dictionary.exchange, numVariables]
  card_basis := by
    rw [card_basis_exchange he hl, hd.card_basis]
    rfl
  get_of_isNonbasic hi hj := by
    rw [numVariables_exchange] at hj
    have hin := isNonbasic_lt hi
    rw [numVariables_exchange] at hin
    rw [get_exchange d e l hin hj, exchangedCell_of_isNonbasic hd he hl hi hj]
  get_of_isBasic hi hj := by
    rw [numVariables_exchange] at hi
    have hjn := isBasic_lt hj
    rw [numVariables_exchange] at hjn
    rw [get_exchange d e l hi hjn, exchangedCell_of_isBasic hd he hl hi hj]
  coord_b_of_isNonbasic {i} hi := by
    have hin := isNonbasic_lt hi
    rw [numVariables_exchange] at hin
    rw [coord_b_exchange d e l hin]
    rw [isNonbasic_exchange he hl] at hi
    obtain rfl | ⟨hi, hie⟩ := hi
    · simp [exchangedRhs]
    · simp [exchangedRhs, hie, not_isBasic_of_isNonbasic hi, hd.coord_b_of_isNonbasic hi]
  coord_c_of_isBasic {j} hj := by
    have hjn := isBasic_lt hj
    rw [numVariables_exchange] at hjn
    rw [coord_c_exchange d e l hjn]
    rw [isBasic_exchange he hl] at hj
    obtain rfl | ⟨hj, hjl⟩ := hj
    · simp [exchangedCost]
    · have hjn := isNonbasic_eq_false hj
      simp [exchangedCost, hjl, hjn, hd.coord_c_of_isBasic hj]

/-! ### Legal pivots -/

/-- A pivot is legal when the entering variable is nonbasic, the leaving one is basic and the
coefficient between them passes for nonzero. -/
structure LegalPivot (d : Dictionary α) (e l : ℕ) : Prop where
  isNonbasic : d.isNonbasic e
  isBasic : d.isBasic l
  ne_zero : (d.a.get l e != 0) = true

omit [Scalar α] in
lemma role_eq_ok {r : Role} : d.role j = .ok r ↔ d.roles[j]? = some r := by
  rw [role]
  cases d.roles[j]? <;> simp

/-- A pivot is accepted exactly when it is legal. -/
lemma checkPivot_eq_ok {u : Unit} : d.checkPivot e l = .ok u ↔ d.LegalPivot e l := by
  simp only [checkPivot, bind_eq_ok, role_eq_ok, Fault.unless_eq_ok, Bool.and_eq_true,
    decide_eq_true_eq]
  constructor
  · rintro ⟨_, he, _, hl, _, ⟨rfl, rfl⟩, hz⟩
    exact ⟨isNonbasic_iff.mpr he, isBasic_iff.mpr hl, hz⟩
  · rintro ⟨he, hl, hz⟩
    exact ⟨_, isNonbasic_iff.mp he, _, isBasic_iff.mp hl, (), ⟨rfl, rfl⟩, hz⟩

/-- A pivot that is legal gives the exchange, and no other pivot gives anything. -/
theorem pivot_result_eq_ok {d' : Dictionary α} :
    (d.pivot e l).result = .ok d' ↔ d.LegalPivot e l ∧ d.exchange e l = d' := by
  simp only [pivot, Traced.result_bind_eq_ok, Traced.result_monadLift, Traced.result_emit,
    Traced.result_pure, checkPivot_eq_ok, Except.ok.injEq]
  constructor
  · rintro ⟨_, hlegal, _, -, hd'⟩
    exact ⟨hlegal, hd'⟩
  · rintro ⟨hlegal, hd'⟩
    exact ⟨(), hlegal, (), trivial, hd'⟩

end LinProg.Dictionary
