import LinProg.Proofs.DenseMatrix

/-!
Matrices as two-dimensional arrays.

* `Table`: an array with two dimensions and a cell for each row and column, without any layout.
* `Origin`, `Edit`: the ways in which a matrix begins and in which it is changed, each with what it
  means for a table. `Table.ofRows?` and `Table.edit?` say which of them are possible.
* `DenseMatrix.Holds`: the entries of a matrix are the cells of a table. `Holds.perform` is the step
  for one edit, `agree_edits` the run of many.
* `DenseMatrix.ofRows_eq_foldlM_pushRow`: rows that are given as a list are appended as rows that
  are given one by one.
* `DenseMatrix.Shows`, `DenseMatrix.agree_table`: whatever the origin and the edits, a matrix is
  possible where the table is, and every way of reading and reshaping it shows the cells of the
  table.
-/

namespace LinProg

variable {α : Type} [Scalar α]

/-! ### Tables -/

/-- A two-dimensional array. Cells outside the dimensions mean nothing. -/
structure Table (α : Type) where
  rows : ℕ
  cols : ℕ
  cell : ℕ → ℕ → α

/-- A change of a two-dimensional array. -/
inductive Edit (α : Type) where
  /-- One more row, behind the others. -/
  | pushRow (cells : Coords α)
  /-- Other dimensions. -/
  | resize (rows cols : ℕ)
  /-- Other cells in a row. -/
  | writeRow (i : ℕ) (cell : ℕ → α)
  /-- Another value in a cell. -/
  | set (i j : ℕ) (x : α)

/-- How a two-dimensional array begins. -/
inductive Origin (α : Type) where
  | zeros (rows cols : ℕ)
  | ofRows (rows : List (Coords α))

namespace Table

/-- The table after a change. -/
def edited (t : Table α) : Edit α → Table α
  | .pushRow cells =>
    ⟨t.rows + 1, t.cols, fun i j => if i < t.rows then t.cell i j else cells.coord j⟩
  | .resize rows cols =>
    ⟨rows, cols, fun i j => if i < t.rows ∧ j < t.cols then t.cell i j else 0⟩
  | .writeRow i cell => { t with cell := Function.update t.cell i cell }
  | .set i j x => { t with cell := Function.update t.cell i (Function.update (t.cell i) j x) }

omit [Scalar α] in
/-- The change is possible: a new row has a cell for each column, no more cells are asked for than
an array has and no more rows than 64 bits can count, and what is written lies within the
dimensions. A row without cells may be written wherever its end can be counted in 64 bits. -/
def Allows (t : Table α) : Edit α → Prop
  | .pushRow cells => cells.size = t.cols ∧
      (t.rows + 1) * t.cols < DenseMatrix.capacity ∧ t.rows + 1 < UInt64.size
  | .resize rows cols => rows * cols < DenseMatrix.capacity
  | .writeRow i _ => i + 1 < UInt64.size ∧ (i < t.rows ∨ t.cols = 0)
  | .set i j _ => i < t.rows ∧ j < t.cols

omit [Scalar α] in
instance (t : Table α) (edit : Edit α) : Decidable (t.Allows edit) := by
  cases edit <;> unfold Allows <;> infer_instance

/-- The table after a change that is possible. -/
def edit? (t : Table α) (edit : Edit α) : Option (Table α) :=
  if t.Allows edit then some (t.edited edit) else none

/-- The table with the given rows, where all have one length. -/
def ofRows? (rows : List (Coords α)) : Option (Table α) :=
  if ∀ r ∈ rows, ∀ s ∈ rows, r.size = s.size then
    some ⟨rows.length, (rows.head?.map Array.size).getD 0, fun i j => (rows.getD i #[]).coord j⟩
  else none

end Table

/-- The table that an array begins as. -/
def Origin.table? : Origin α → Option (Table α)
  | zeros rows cols =>
    if rows * cols < DenseMatrix.capacity then some ⟨rows, cols, fun _ _ => 0⟩ else none
  | ofRows rows => Table.ofRows? rows

/-- The matrix that an array begins as. -/
def Origin.matrix : Origin α → Except Fault (DenseMatrix α)
  | zeros rows cols => DenseMatrix.zerosWithin rows cols
  | ofRows rows => DenseMatrix.ofRows rows

namespace DenseMatrix

variable {m m' : DenseMatrix α} {t t' : Table α} {i j i' j' rows cols : ℕ}

/-- The matrix after a change. -/
def perform (m : DenseMatrix α) : Edit α → Except Fault (DenseMatrix α)
  | .pushRow cells => m.pushRow cells
  | .resize rows cols => m.resize rows cols
  | .writeRow i cell => m.writeRow i cell
  | .set i j x => m.set i j x

/-- The entries of the matrix are the cells of the table, row after row. -/
structure Holds (m : DenseMatrix α) (t : Table α) : Prop where
  wellShaped : m.WellShaped
  rows_eq : m.rows = t.rows
  cols_eq : m.cols = t.cols
  get_eq : ∀ i < t.rows, ∀ j < t.cols, m.get i j = t.cell i j

/-- Either the matrix is refused and the table impossible, or the one holds the other. -/
inductive Agree (R : DenseMatrix α → Table α → Prop) :
    Except Fault (DenseMatrix α) → Option (Table α) → Prop where
  | refused (fault : Fault) : Agree R (.error fault) none
  | possible {m : DenseMatrix α} {t : Table α} (h : R m t) : Agree R (.ok m) (some t)

/-! ### Rows -/

omit [Scalar α] in
/-- A row of a well-shaped matrix lies within the entries where the row exists. -/
lemma hasRow_iff (hm : m.WellShaped) :
    m.hasRow i = true ↔ i + 1 < UInt64.size ∧ (i < m.rows ∨ m.cols = 0) := by
  rw [hasRow, Bool.and_eq_true, decide_eq_true_eq, decide_eq_true_eq, show m.data.size = _ from hm]
  refine and_congr_right fun _ => ?_
  rcases Nat.eq_zero_or_pos m.cols with hzero | hpos
  · simp [hzero]
  · rw [Nat.mul_le_mul_right_iff hpos]
    omega

/-! ### Steps -/

/-- Only the cells within the dimensions matter. -/
lemma Holds.congr (h : m.Holds t) (hrows : t.rows = t'.rows) (hcols : t.cols = t'.cols)
    (hcell : ∀ i < t.rows, ∀ j < t.cols, t.cell i j = t'.cell i j) : m.Holds t' where
  wellShaped := h.wellShaped
  rows_eq := h.rows_eq.trans hrows
  cols_eq := h.cols_eq.trans hcols
  get_eq i hi j hj := by
    rw [← hrows] at hi
    rw [← hcols] at hj
    rw [h.get_eq i hi j hj, hcell i hi j hj]

/-- A matrix given by a function holds the cells that the function gives. -/
lemma holds_ofFn {f : ℕ → ℕ → α} (hrows : t.rows = rows) (hcols : t.cols = cols)
    (h : ∀ i < rows, ∀ j < cols, f i j = t.cell i j) : (ofFn rows cols f).Holds t := by
  subst hrows hcols
  exact ⟨wellShaped_ofFn _ _ _, rfl, rfl, fun i hi j hj => by rw [get_ofFn f hi hj, h i hi j hj]⟩

/-- Only one matrix holds the cells of a table. -/
lemma Holds.eq_ofFn (h : m.Holds t) : m = ofFn t.rows t.cols t.cell :=
  ext_get h.wellShaped (wellShaped_ofFn _ _ _) h.rows_eq h.cols_eq fun i hi j hj => by
    rw [h.rows_eq] at hi
    rw [h.cols_eq] at hj
    rw [h.get_eq i hi j hj, get_ofFn _ hi hj]

lemma holds_zeros (rows cols : ℕ) :
    (zeros rows cols : DenseMatrix α).Holds ⟨rows, cols, fun _ _ => 0⟩ :=
  holds_ofFn rfl rfl fun _ _ _ _ => rfl

section Agree

variable {R S : DenseMatrix α → Table α → Prop} {x : Except Fault (DenseMatrix α)}
  {y : Option (Table α)} {p q : Prop} [Decidable p] [Decidable q]

omit [Scalar α]

/-- A matrix is given where the table is possible, and a fault elsewhere. -/
lemma Agree.of_ite (hpossible : p → ∃ m, x = .ok m ∧ R m t)
    (hrefused : ¬ p → ∃ fault, x = .error fault) : Agree R x (if p then some t else none) := by
  by_cases hp : p
  · obtain ⟨m, rfl, hm⟩ := hpossible hp
    rw [if_pos hp]
    exact .possible hm
  · obtain ⟨fault, rfl⟩ := hrefused hp
    rw [if_neg hp]
    exact .refused fault

lemma Agree.bind {f : DenseMatrix α → Except Fault (DenseMatrix α)} {g : Table α → Option (Table α)}
    (h : Agree R x y) (hfg : ∀ m t, R m t → Agree S (f m) (g t)) : Agree S (x >>= f) (y >>= g) := by
  cases h with
  | refused fault => exact .refused fault
  | possible h => exact hfg _ _ h

lemma Agree.mono (h : Agree R x y) (hRS : ∀ m t, R m t → S m t) : Agree S x y := by
  cases h with
  | refused fault => exact .refused fault
  | possible h => exact .possible (hRS _ _ h)

/-- The same matrix may stand for another table, where the one is possible as the other is. -/
lemma Agree.congr (h : Agree R x (if p then some t else none)) (hpq : p ↔ q)
    (hR : ∀ m, R m t → R m t') : Agree R x (if q then some t' else none) := by
  rw [← if_congr hpq rfl rfl]
  by_cases hp : p
  · rw [if_pos hp] at h ⊢
    cases h with
    | possible h => exact .possible (hR _ h)
  · rw [if_neg hp] at h ⊢
    exact h

end Agree

lemma Holds.size_data (h : m.Holds t) : m.data.size = t.rows * t.cols := by
  rw [show m.data.size = _ from h.wellShaped, h.rows_eq, h.cols_eq]

/-- A row is appended where it has a cell for each column. -/
lemma Holds.appendRow (h : m.Holds t) (cells : Coords α) :
    Agree Holds (m.appendRow cells)
      (if cells.size = t.cols then some (t.edited (.pushRow cells)) else none) := by
  obtain rfl := h.eq_ofFn
  refine .of_ite (fun hsize => ⟨_, appendRow_ofFn hsize (g := (t.edited (.pushRow cells)).cell)
    (fun i hi j _ => if_pos hi) fun j _ => if_neg (lt_irrefl t.rows), ?_⟩)
    fun hsize => ⟨.shapeMismatch, ?_⟩
  · exact holds_ofFn rfl rfl fun _ _ _ _ => rfl
  · have hcheck : (cells.size == (ofFn t.rows t.cols t.cell).cols) = false := by simpa using hsize
    rw [DenseMatrix.appendRow, hcheck]
    rfl

/-- A row is pushed where it has a cell for each column, where an array holds the cells and where 64
bits count the rows. -/
lemma Holds.pushRow (h : m.Holds t) (cells : Coords α) :
    Agree Holds (m.pushRow cells) (t.edit? (.pushRow cells)) := by
  have hfits : t.edit? (.pushRow cells) =
      (if cells.size = t.cols then some (t.edited (.pushRow cells)) else none) >>= fun t' =>
        if t'.rows * t'.cols < capacity ∧ t'.rows < UInt64.size then some t' else none := by
    by_cases hsize : cells.size = t.cols
    · rw [if_pos hsize, Table.edit?]
      exact if_congr (and_iff_right hsize) rfl rfl
    · rw [if_neg hsize, Table.edit?, if_neg fun hallows => hsize hallows.1]
      rfl
  rw [hfits]
  refine (h.appendRow cells).bind fun m' t' h' => ?_
  have hcheck : (decide (m'.data.size < capacity) && decide (m'.rows < UInt64.size)) = true ↔
      t'.rows * t'.cols < capacity ∧ t'.rows < UInt64.size := by
    rw [Bool.and_eq_true, decide_eq_true_eq, decide_eq_true_eq, h'.size_data, h'.rows_eq]
  refine .of_ite (fun hfits => ⟨m', ?_, h'⟩) fun hfits => ⟨.tooLarge, ?_⟩
  · rw [hcheck.mpr hfits]
    rfl
  · rw [Bool.eq_false_iff.mpr (mt hcheck.mp hfits)]
    rfl

lemma Holds.reshape (h : m.Holds t) (rows cols : ℕ) :
    m.reshape rows cols = .ok (m.reshaped rows cols) ∧
      (m.reshaped rows cols).Holds (t.edited (.resize rows cols)) := by
  refine ⟨reshape_eq h.wellShaped rows cols, holds_ofFn rfl rfl fun i _ j _ => ?_⟩
  rw [h.rows_eq, h.cols_eq]
  exact ite_congr rfl (fun hold => h.get_eq i hold.1 j hold.2) fun _ => rfl

/-- Either way of reshaping is taken where an array holds the cells. -/
lemma Holds.resize (h : m.Holds t) (rows cols : ℕ) :
    Agree Holds (m.resize rows cols) (t.edit? (.resize rows cols)) := by
  obtain ⟨hreshape, hholds⟩ := h.reshape rows cols
  refine .of_ite (fun hallows => ⟨_, ?_, hholds⟩) fun hallows => ⟨.tooLarge, ?_⟩
  · have hcheck : decide (rows * cols < capacity) = true := decide_eq_true hallows
    rw [DenseMatrix.resize, hcheck, hreshape]
    rfl
  · have hcheck : decide (rows * cols < capacity) = false := decide_eq_false hallows
    rw [DenseMatrix.resize, hcheck]
    rfl

/-- Other cells are written into a row where it exists. -/
lemma Holds.writeRow (h : m.Holds t) (i : ℕ) (cell : ℕ → α) :
    Agree Holds (m.writeRow i cell) (t.edit? (.writeRow i cell)) := by
  have hcheck : m.hasRow i = true ↔ t.Allows (.writeRow i cell) := by
    rw [hasRow_iff h.wellShaped, h.rows_eq, h.cols_eq]
    rfl
  obtain rfl := h.eq_ofFn
  let written : DenseMatrix α := ofFn t.rows t.cols fun i' j =>
    if i' = i ∧ j < (Coords.tabulate t.cols cell).size then (Coords.tabulate t.cols cell).coord j
    else t.cell i' j
  refine .of_ite (fun hallows => ⟨written, ?_, ?_⟩) fun hallows => ⟨.indexOutOfRange, ?_⟩
  · have hend : (i + 1) * t.cols ≤ t.rows * t.cols := by
      obtain ⟨-, hi | hzero⟩ := hallows
      · exact Nat.mul_le_mul_right _ hi
      · simp [hzero]
    rw [DenseMatrix.writeRow, hcheck.mpr hallows]
    exact overwriteRow_ofFn hend (by simp)
  · refine holds_ofFn rfl rfl fun i' _ j hj => ?_
    by_cases hi' : i' = i
    · simp [Table.edited, hi', hj]
    · simp [Table.edited, hi']
  · rw [DenseMatrix.writeRow, Bool.eq_false_iff.mpr (mt hcheck.mp hallows)]
    rfl

/-- A value is written into a cell where the cell exists. -/
lemma Holds.set (h : m.Holds t) (i j : ℕ) (x : α) :
    Agree Holds (m.set i j x) (t.edit? (.set i j x)) := by
  obtain rfl := h.eq_ofFn
  refine .of_ite (fun hcell => ⟨_, set_ofFn t.cell hcell.1 hcell.2 x, ?_⟩)
    fun hcell => ⟨.indexOutOfRange, ?_⟩
  · refine holds_ofFn rfl rfl fun i' _ j' _ => ?_
    simp only [Table.edited, Function.update_apply]
    grind
  · have hcheck : (ofFn t.rows t.cols t.cell).inRange i j = false := by
      rw [Bool.eq_false_iff, Ne, inRange, Bool.and_eq_true, decide_eq_true_eq, decide_eq_true_eq]
      exact hcell
    rw [DenseMatrix.set, hcheck]
    rfl

/-- A change is accepted where the table allows it, and does to the entries what it does to the
cells. -/
lemma Holds.perform (h : m.Holds t) (edit : Edit α) :
    Agree Holds (m.perform edit) (t.edit? edit) := by
  cases edit with
  | pushRow cells => exact h.pushRow cells
  | resize rows cols => exact h.resize rows cols
  | writeRow i cell => exact h.writeRow i cell
  | set i j x => exact h.set i j x

/-! ### Runs -/

/-- Many changes are accepted where the table allows them one after another, and do to the entries
what they do to the table. -/
lemma Holds.agree_edits (h : m.Holds t) (edits : List (Edit α)) :
    Agree Holds (edits.foldlM DenseMatrix.perform m) (edits.foldlM Table.edit? t) := by
  induction edits generalizing m t with
  | nil => exact .possible h
  | cons edit edits ih =>
      rw [List.foldlM_cons, List.foldlM_cons]
      exact (h.perform edit).bind fun m t hnext => ih hnext

/-- Rows of one length are appended one after another. -/
lemma agree_foldlM_appendRow (cols : ℕ) (rows : List (Coords α)) :
    Agree Holds (rows.foldlM DenseMatrix.appendRow (zeros 0 cols))
      (if ∀ r ∈ rows, r.size = cols then
        some ⟨rows.length, cols, fun i j => (rows.getD i #[]).coord j⟩
      else none) := by
  induction rows using List.reverseRecOn with
  | nil =>
      rw [if_pos (by simp)]
      exact .possible ((holds_zeros 0 cols).congr rfl rfl fun i hi => absurd hi (Nat.not_lt_zero i))
  | append_singleton rows r ih =>
      have hstep := ih.bind fun m t h => h.appendRow r
      have hsizes : ∀ t : Table α, t.cols = cols →
          ((if ∀ s ∈ rows, s.size = cols then some t else none) >>= fun t : Table α =>
            if r.size = t.cols then some (t.edited (.pushRow r)) else none) =
            if (∀ s ∈ rows, s.size = cols) ∧ r.size = cols then some (t.edited (.pushRow r))
            else none := by
        rintro t rfl
        by_cases hrows : ∀ s ∈ rows, s.size = t.cols
        · rw [if_pos hrows, ← if_congr (and_iff_right hrows).symm rfl rfl]
          rfl
        · rw [if_neg hrows, if_neg fun h => hrows h.1]
          rfl
      rw [hsizes _ rfl] at hstep
      rw [List.foldlM_append]
      simp only [List.foldlM_cons, List.foldlM_nil, bind_pure]
      refine hstep.congr (by simp [or_imp, forall_and]) fun m hm =>
        hm.congr (by simp [Table.edited]) rfl fun i (hi : i < rows.length + 1) j _ => ?_
      -- the new row is the last one
      obtain hi | rfl := Nat.lt_succ_iff_lt_or_eq.mp hi
      · simp [Table.edited, hi, List.getElem?_append_left]
      · simp [Table.edited]

/-- A list of rows is a matrix where they have one length. -/
lemma agree_ofRows (rows : List (Coords α)) : Agree Holds (ofRows rows) (Table.ofRows? rows) := by
  refine (agree_foldlM_appendRow _ rows).congr ?_ fun m hm => hm
  cases rows with
  | nil => simp
  | cons first rows =>
      constructor
      · intro h r hr s hs
        rw [h r hr, h s hs]
      · intro h r hr
        exact h r hr first (List.mem_cons_self ..)

/-- Rows are accepted exactly where they have one length. -/
lemma exists_ofRows_iff (rows : List (Coords α)) :
    (∃ m, ofRows rows = .ok m) ↔ ∀ r ∈ rows, ∀ s ∈ rows, r.size = s.size := by
  have hrows := agree_ofRows rows
  rw [Table.ofRows?] at hrows
  by_cases h : ∀ r ∈ rows, ∀ s ∈ rows, r.size = s.size
  · rw [if_pos h] at hrows
    generalize ofRows rows = built at hrows
    cases hrows with
    | possible => exact iff_of_true ⟨_, rfl⟩ h
  · rw [if_neg h] at hrows
    generalize ofRows rows = built at hrows
    cases hrows with
    | refused => exact iff_of_false (by simp) h

omit [Scalar α] in
/-- An appended row is one row more. -/
lemma shape_of_appendRow {cells : Coords α} (hm : m.WellShaped) (h : m.appendRow cells = .ok m') :
    m'.WellShaped ∧ m'.rows = m.rows + 1 ∧ m'.cols = m.cols := by
  obtain ⟨_, hcheck, h⟩ := bind_eq_ok.mp h
  obtain rfl := Except.ok.inj h
  have hsize : cells.size = m.cols := by simpa using Fault.unless_eq_ok.mp hcheck
  refine ⟨?_, rfl, rfl⟩
  rw [WellShaped, Array.size_append, hsize, hm, Nat.succ_mul]

omit [Scalar α] in
lemma pushRow_eq_appendRow (hm : m.WellShaped) (hcount : m.rows + 1 < UInt64.size)
    (hfits : (m.rows + 1) * m.cols < capacity) (cells : Coords α) :
    m.pushRow cells = m.appendRow cells := by
  rw [pushRow]
  cases happend : m.appendRow cells with
  | error fault => rfl
  | ok next =>
      obtain ⟨hnext, hrows, hcols⟩ := shape_of_appendRow hm happend
      have hcheck : (decide (next.data.size < capacity) && decide (next.rows < UInt64.size)) =
          true := by
        rw [hnext, hrows, hcols, decide_eq_true hfits, decide_eq_true hcount]
        rfl
      simp only [bind, Except.bind, hcheck, Fault.unless, if_true]
      rfl

/-- Rows that an array holds and 64 bits count are appended with the checks as they are without. -/
theorem ofRows_eq_foldlM_pushRow {rows : List (Coords α)} (hcount : rows.length < UInt64.size)
    (hfits : rows.length * (rows.head?.map Array.size).getD 0 < capacity) :
    ofRows rows = rows.foldlM pushRow (zeros 0 ((rows.head?.map Array.size).getD 0)) := by
  have hrun : ∀ (rows : List (Coords α)) (m : DenseMatrix α), m.WellShaped →
      m.rows + rows.length < UInt64.size → (m.rows + rows.length) * m.cols < capacity →
      rows.foldlM appendRow m = rows.foldlM pushRow m := by
    intro rows
    induction rows with
    | nil => exact fun m _ _ _ => rfl
    | cons cells rows ih =>
        intro m hm hcount hfits
        rw [List.length_cons] at hcount hfits
        have hroom : (m.rows + 1) * m.cols < capacity :=
          (Nat.mul_le_mul_right _ (by omega)).trans_lt hfits
        rw [List.foldlM_cons, List.foldlM_cons, pushRow_eq_appendRow hm (by omega) hroom]
        refine bind_congr_of_eq_ok fun next hnext => ?_
        obtain ⟨hnext, hrows, hcols⟩ := shape_of_appendRow hm hnext
        refine ih next hnext (by omega) ?_
        rwa [hrows, hcols, Nat.add_right_comm, Nat.add_assoc]
  exact hrun rows _ (wellShaped_ofFn _ _ _) (by simpa [zeros] using hcount)
    (by simpa [zeros] using hfits)

/-! ### Reading and reshaping -/

/-- Every way of reading and reshaping the matrix shows the cells of the table: a cell is found
within the dimensions only, a row lists its cells, other dimensions keep the cells that they share,
whether or not the number of columns changes, and dimensions that were grown can be taken back. -/
structure Shows (m : DenseMatrix α) (t : Table α) : Prop where
  rows_eq : m.rows = t.rows
  cols_eq : m.cols = t.cols
  size_data : m.data.size = t.rows * t.cols
  entry_eq : ∀ i j, m.entry i j =
    if i < t.rows ∧ j < t.cols then .ok (t.cell i j) else .error .indexOutOfRange
  row_eq : ∀ i < t.rows, i + 1 < UInt64.size → m.row i = .ok (Coords.tabulate t.cols (t.cell i))
  resize_eq : ∀ rows cols, m.resize rows cols =
    if rows * cols < capacity then
      .ok (ofFn rows cols fun i j => if i < t.rows ∧ j < t.cols then t.cell i j else 0)
    else .error .tooLarge
  resize_resize : ∀ rows cols, t.rows ≤ rows → t.cols ≤ cols → rows * cols < capacity →
    (do
      let grown ← m.resize rows cols
      grown.resize t.rows t.cols) = .ok m

lemma Holds.entry_eq (h : m.Holds t) (i j : ℕ) : m.entry i j =
    if i < t.rows ∧ j < t.cols then .ok (t.cell i j) else .error .indexOutOfRange := by
  have hcheck : m.inRange i j = true ↔ i < t.rows ∧ j < t.cols := by
    rw [inRange, Bool.and_eq_true, decide_eq_true_eq, decide_eq_true_eq, h.rows_eq, h.cols_eq]
  split_ifs with hcell
  · rw [entry_eq_ok h.wellShaped (h.rows_eq ▸ hcell.1) (h.cols_eq ▸ hcell.2),
      h.get_eq i hcell.1 j hcell.2]
  · rw [entry, Bool.eq_false_iff.mpr fun htrue => hcell (hcheck.mp htrue)]
    rfl

/-- The cells of a row stand one after another. -/
lemma Holds.rowCells_eq (h : m.Holds t) (hi : i < t.rows) :
    m.rowCells i = Coords.tabulate t.cols (t.cell i) := by
  have hend : (i + 1) * m.cols ≤ m.data.size := by
    rw [h.size_data, h.cols_eq]
    exact Nat.mul_le_mul_right _ hi
  have hsize : (m.rowCells i).size = t.cols := by
    rw [rowCells, Array.size_extract, min_eq_left hend, Nat.succ_mul, Nat.add_sub_cancel_left,
      h.cols_eq]
  refine Coords.ext_coord (by rw [hsize, Coords.size_tabulate]) fun j hj => ?_
  rw [hsize] at hj
  rw [Coords.coord_tabulate, if_pos hj, ← h.get_eq i hi j hj, get, Coords.coord_eq_getElem?,
    Coords.coord_eq_getElem?, rowCells, Array.getElem?_extract, if_pos]
  rw [min_eq_left hend, Nat.succ_mul, Nat.add_sub_cancel_left, h.cols_eq]
  exact hj

lemma Holds.row_eq (h : m.Holds t) (hi : i < t.rows) (hword : i + 1 < UInt64.size) :
    m.row i = .ok (Coords.tabulate t.cols (t.cell i)) := by
  have hcheck : m.hasRow i = true :=
    (hasRow_iff h.wellShaped).mpr ⟨hword, .inl (h.rows_eq.symm ▸ hi)⟩
  rw [row, hcheck, ← h.rowCells_eq hi]
  rfl

/-- Both ways of reshaping come to the same. -/
lemma Holds.resize_eq (h : m.Holds t) (rows cols : ℕ) : m.resize rows cols =
    if rows * cols < capacity then
      .ok (ofFn rows cols fun i j => if i < t.rows ∧ j < t.cols then t.cell i j else 0)
    else .error .tooLarge := by
  split_ifs with hfits
  · obtain ⟨hreshape, hholds⟩ := h.reshape rows cols
    rw [DenseMatrix.resize, decide_eq_true hfits, hreshape, hholds.eq_ofFn]
    rfl
  · rw [DenseMatrix.resize, decide_eq_false hfits]
    rfl

/-- Nothing is lost where the dimensions only grow. -/
lemma Holds.resize_resize (h : m.Holds t) (hrows : t.rows ≤ rows) (hcols : t.cols ≤ cols)
    (hfits : rows * cols < capacity) :
    (do
      let grown ← m.resize rows cols
      grown.resize t.rows t.cols) = .ok m := by
  have hgrown := (h.reshape rows cols).2
  have hback : t.rows * t.cols < capacity := (Nat.mul_le_mul hrows hcols).trans_lt hfits
  have hgrow : m.resize rows cols = .ok (m.reshaped rows cols) := by
    rw [h.resize_eq, if_pos hfits, hgrown.eq_ofFn]
    rfl
  rw [hgrow]
  refine (hgrown.resize_eq t.rows t.cols).trans ?_
  rw [if_pos hback, h.eq_ofFn]
  refine congrArg Except.ok (ofFn_congr fun i hi j hj => ?_)
  simp [Table.edited, hi, hj, hi.trans_le hrows, hj.trans_le hcols]

lemma Holds.shows (h : m.Holds t) : m.Shows t where
  rows_eq := h.rows_eq
  cols_eq := h.cols_eq
  size_data := h.size_data
  entry_eq := h.entry_eq
  row_eq _ hi hword := h.row_eq hi hword
  resize_eq := h.resize_eq
  resize_resize _ _ hrows hcols hfits := h.resize_resize hrows hcols hfits

end DenseMatrix

/-- A matrix begins where a table does. -/
lemma Origin.agree_holds (origin : Origin α) :
    DenseMatrix.Agree DenseMatrix.Holds origin.matrix origin.table? := by
  cases origin with
  | zeros rows cols =>
      refine .of_ite (fun hfits => ⟨_, ?_, DenseMatrix.holds_zeros rows cols⟩)
        fun hfits => ⟨.tooLarge, ?_⟩
      · rw [matrix, DenseMatrix.zerosWithin, decide_eq_true hfits]
        rfl
      · rw [matrix, DenseMatrix.zerosWithin, decide_eq_false hfits]
        rfl
  | ofRows rows => exact DenseMatrix.agree_ofRows rows

/-- Whatever a matrix begins as and however it is changed: it is accepted exactly where the
two-dimensional array is possible, and then shows the cells of this array. In particular a list of
rows is accepted exactly where all of them have one length. -/
theorem DenseMatrix.agree_table :
    (∀ (origin : Origin α) (edits : List (Edit α)), Agree Shows
      (origin.matrix >>= fun m => edits.foldlM perform m)
      (origin.table? >>= fun t => edits.foldlM Table.edit? t)) ∧
    ∀ rows : List (Coords α),
      (∃ m, ofRows rows = .ok m) ↔ ∀ r ∈ rows, ∀ s ∈ rows, r.size = s.size := by
  refine ⟨fun origin edits => ?_, exists_ofRows_iff⟩
  have hrun := origin.agree_holds.bind fun m t h => h.agree_edits edits
  exact hrun.mono fun m t h => h.shows

/-- Cells that were cut off do not come back. -/
example : (do
    let m ← DenseMatrix.ofRows [#[1, 2], #[3, (4 : ℚ)]]
    List.foldlM DenseMatrix.perform m
      [.resize 3 3, .set 2 2 9, .set 0 2 7, .resize 2 2, .resize 2 3]) =
    .ok ⟨2, 3, #[1, 2, 0, 3, 4, 0]⟩ := by
  decide +kernel

end LinProg
