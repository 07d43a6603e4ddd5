import LinProg.Proofs.Coords
import LinProg.Proofs.Traced
import LinProg.DenseMatrix

/-!
Matrices, entry by entry.

* `DenseMatrix.ext_get`, `ofFn_congr`, `ofFn_get`: well-shaped matrices are told by their shape and
  their cells.
* `DenseMatrix.entry_eq_ok`, `rowSlice_eq_ok`, `set_ofFn`, `overwriteRow_ofFn`: within the
  dimensions, checked access succeeds, and writing changes the cells that were asked for.
* `DenseMatrix.reshape_eq`: both ways of reshaping, in place (`resized_eq`) and row after row
  (`copyRows_eq`), keep the cells that are in both shapes and are zero elsewhere.
* `DenseMatrix.appendRow_ofFn`: a matrix given by a function, with one more row.
-/

namespace LinProg.DenseMatrix

variable {α : Type} [Scalar α] {m : DenseMatrix α} {f g : ℕ → ℕ → α} {rows cols i j i' j' : ℕ}

/-! ### Offsets -/

/-- A cell of a shape lies within the entries of that shape. -/
lemma offset_lt (hi : i < rows) (hj : j < cols) : i * cols + j < rows * cols :=
  calc i * cols + j < i * cols + cols := Nat.add_lt_add_left hj _
    _ = (i + 1) * cols := (Nat.succ_mul i cols).symm
    _ ≤ rows * cols := Nat.mul_le_mul_right cols hi

/-- The first cells of a row lie within the entries of the shape. -/
lemma offset_add_le {count : ℕ} (hi : i < rows) (hcount : count ≤ cols) :
    i * cols + count ≤ rows * cols :=
  calc i * cols + count ≤ i * cols + cols := Nat.add_le_add_left hcount _
    _ = (i + 1) * cols := (Nat.succ_mul i cols).symm
    _ ≤ rows * cols := Nat.mul_le_mul_right cols hi

/-- The offset of a cell tells its row. -/
lemma offset_mem_row_iff (hj : j < cols) :
    i * cols ≤ i' * cols + j ∧ i' * cols + j < i * cols + cols ↔ i' = i := by
  constructor
  · rintro ⟨hle, hlt⟩
    have hbelow : i < i' + 1 := by
      by_contra hge
      have hfar := Nat.mul_le_mul_right cols (not_lt.mp hge)
      rw [Nat.succ_mul] at hfar
      omega
    have habove : i' < i + 1 := by
      by_contra hge
      have hfar := Nat.mul_le_mul_right cols (not_lt.mp hge)
      rw [Nat.succ_mul] at hfar
      omega
    omega
  · rintro rfl
    omega

/-- Different cells have different offsets. -/
lemma offset_inj_iff (hj : j < cols) (hj' : j' < cols) :
    i * cols + j = i' * cols + j' ↔ i = i' ∧ j = j' := by
  constructor
  · intro h
    obtain rfl : i' = i := (offset_mem_row_iff hj').mp (by omega)
    exact ⟨rfl, by omega⟩
  · rintro ⟨rfl, rfl⟩
    rfl

/-! ### Cells -/

/-- Beyond its last row a well-shaped matrix reads as zero. -/
lemma get_of_rows_le (hm : m.WellShaped) (hi : m.rows ≤ i) : m.get i j = 0 := by
  refine Coords.coord_of_size_le ?_
  rw [hm]
  exact (Nat.mul_le_mul_right _ hi).trans (Nat.le_add_right _ _)

/-- Well-shaped matrices of one shape with the same cells are equal. -/
theorem ext_get {n : DenseMatrix α} (hm : m.WellShaped) (hn : n.WellShaped)
    (hrows : m.rows = n.rows) (hcols : m.cols = n.cols)
    (h : ∀ i < m.rows, ∀ j < m.cols, m.get i j = n.get i j) : m = n := by
  have hsize : m.data.size = n.data.size := by rw [hm, hn, hrows, hcols]
  have hdata : m.data = n.data := by
    refine Coords.ext_coord hsize fun k hk => ?_
    -- an offset within the entries is that of the cell in its row and column
    rw [hm] at hk
    have hpos : 0 < m.cols := Nat.pos_of_mul_pos_left (Nat.zero_lt_of_lt hk)
    have hrow : k / m.cols < m.rows := Nat.div_lt_of_lt_mul (Nat.mul_comm m.rows m.cols ▸ hk)
    have hcell := h (k / m.cols) hrow (k % m.cols) (Nat.mod_lt k hpos)
    rwa [get, get, ← hcols, Nat.div_add_mod'] at hcell
  cases m
  cases n
  simp_all

lemma ofFn_congr (h : ∀ i < rows, ∀ j < cols, f i j = g i j) :
    ofFn rows cols f = ofFn rows cols g := by
  refine ext_get (wellShaped_ofFn _ _ _) (wellShaped_ofFn _ _ _) rfl rfl
    fun i (hi : i < rows) j (hj : j < cols) => ?_
  rw [get_ofFn f hi hj, get_ofFn g hi hj, h i hi j hj]

lemma ofFn_get (hm : m.WellShaped) (hrows : m.rows = rows) (hcols : m.cols = cols) :
    ofFn rows cols m.get = m :=
  ext_get (wellShaped_ofFn _ _ _) hm hrows.symm hcols.symm
    fun _ hi _ hj => get_ofFn m.get hi hj

/-! ### Checked access -/

section Dimensions

omit [Scalar α]

@[simp] lemma rows_ofFn (rows cols : ℕ) (f : ℕ → ℕ → α) : (ofFn rows cols f).rows = rows := rfl

@[simp] lemma cols_ofFn (rows cols : ℕ) (f : ℕ → ℕ → α) : (ofFn rows cols f).cols = cols := rfl

lemma data_ofFn (rows cols : ℕ) (f : ℕ → ℕ → α) :
    (ofFn rows cols f).data = Coords.tabulate (rows * cols) fun k => f (k / cols) (k % cols) := rfl

@[simp] lemma size_data_ofFn (rows cols : ℕ) (f : ℕ → ℕ → α) :
    (ofFn rows cols f).data.size = rows * cols := wellShaped_ofFn rows cols f

end Dimensions

/-- A cell within the dimensions is read. -/
lemma entry_eq_ok (hm : m.WellShaped) (hi : i < m.rows) (hj : j < m.cols) :
    m.entry i j = .ok (m.get i j) := by
  have hcheck : m.inRange i j = true := by simp [inRange, hi, hj]
  have hlt : i * m.cols + j < m.data.size := by
    rw [hm]
    exact offset_lt hi hj
  rw [entry, hcheck]
  exact Coords.entry_eq_ok hlt

lemma entry_ofFn (f : ℕ → ℕ → α) (hi : i < rows) (hj : j < cols) :
    (ofFn rows cols f).entry i j = .ok (f i j) := by
  rw [entry_eq_ok (wellShaped_ofFn _ _ _) hi hj, get_ofFn f hi hj]

/-- The first cells of a row stand one after another. -/
lemma slice_data {count : ℕ} (hm : m.WellShaped) (hi : i < m.rows) (hcount : count ≤ m.cols) :
    m.data.slice (i * m.cols) (i * m.cols + count) = .ok (Coords.tabulate count (m.get i)) := by
  refine Coords.slice_eq_ok ?_
  rw [hm]
  exact offset_add_le hi hcount

lemma rowSlice_eq_ok (hm : m.WellShaped) (hi : i < m.rows) :
    m.rowSlice i = .ok (Coords.tabulate m.cols (m.get i)) := by
  rw [rowSlice, Nat.succ_mul]
  exact slice_data hm hi le_rfl

/-- Writing the first cells of a row changes them alone. -/
lemma overwrite_data_ofFn {cells : Coords α} (hi : (i + 1) * cols ≤ rows * cols)
    (hsize : cells.size ≤ cols) :
    (ofFn rows cols f).data.overwrite (i * cols) cells =
      .ok (ofFn rows cols fun i' j =>
        if i' = i ∧ j < cells.size then cells.coord j else f i' j).data := by
  have hcell : ∀ k < rows * cols,
      (if i * cols ≤ k ∧ k < i * cols + cells.size then cells.coord (k - i * cols)
        else f (k / cols) (k % cols)) =
      if k / cols = i ∧ k % cols < cells.size then cells.coord (k % cols)
        else f (k / cols) (k % cols) := by
    intro k hk
    have hcols : 0 < cols := Nat.pos_of_mul_pos_left (Nat.zero_lt_of_lt hk)
    -- the offset of a cell tells its row and its column
    have hrow : i * cols ≤ k / cols * cols + k % cols ∧
        k / cols * cols + k % cols < i * cols + cols ↔ k / cols = i :=
      offset_mem_row_iff (Nat.mod_lt k hcols)
    rw [Nat.div_add_mod'] at hrow
    have hoffset := Nat.div_add_mod' k cols
    by_cases hik : k / cols = i
    · subst hik
      have hcolumn : k - k / cols * cols = k % cols := by omega
      rw [hcolumn]
      exact if_congr (by omega) rfl rfl
    · rw [if_neg fun h => hik (hrow.mp ⟨h.1, h.2.trans_le (Nat.add_le_add_left hsize _)⟩),
        if_neg fun h => hik h.1]
  have hend : i * cols + cells.size ≤ rows * cols := by
    rw [Nat.succ_mul] at hi
    exact (Nat.add_le_add_left hsize _).trans hi
  rw [data_ofFn, data_ofFn, Coords.overwrite_tabulate hend, Coords.tabulate_congr hcell]

lemma overwriteRow_ofFn {cells : Coords α} (hi : (i + 1) * cols ≤ rows * cols)
    (hsize : cells.size ≤ cols) :
    (ofFn rows cols f).overwriteRow i cells = .ok (ofFn rows cols fun i' j =>
      if i' = i ∧ j < cells.size then cells.coord j else f i' j) := by
  simp only [overwriteRow, rows_ofFn, cols_ofFn, size_data_ofFn, hi, hsize, decide_true,
    Bool.and_self, Fault.unless, if_true, overwrite_data_ofFn hi hsize]
  rfl

/-- Writing a cell changes it alone. -/
lemma set_ofFn (f : ℕ → ℕ → α) (hi : i < rows) (hj : j < cols) (x : α) :
    (ofFn rows cols f).set i j x = .ok (ofFn rows cols fun i' j' =>
      if i' = i ∧ j' = j then x else f i' j') := by
  have hcell : ∀ k < rows * cols,
      Function.update (fun k => f (k / cols) (k % cols)) (i * cols + j) x k =
      if k / cols = i ∧ k % cols = j then x else f (k / cols) (k % cols) := by
    intro k hk
    have hcols : 0 < cols := Nat.pos_of_mul_pos_left (Nat.zero_lt_of_lt hk)
    have hcell : k / cols * cols + k % cols = i * cols + j ↔ k / cols = i ∧ k % cols = j :=
      offset_inj_iff (Nat.mod_lt k hcols) hj
    rw [Nat.div_add_mod'] at hcell
    rw [Function.update_apply]
    exact if_congr hcell rfl rfl
  simp only [set, inRange, rows_ofFn, cols_ofFn, hi, hj, decide_true, Bool.and_self, Fault.unless,
    if_true, data_ofFn, Coords.store_tabulate (offset_lt hi hj), Coords.tabulate_congr hcell]
  rfl

/-! ### Reshaping -/

/-- In place the offset of a cell stays, so that only the rows beyond the old ones need care. -/
lemma resized_eq (hm : m.WellShaped) (rows : ℕ) :
    { m with rows := rows, data := m.data.resized (rows * m.cols) } = m.reshaped rows m.cols := by
  refine ext_get ?_ (wellShaped_ofFn _ _ _) rfl rfl fun i hi j hj => ?_
  · exact Coords.size_tabulate _ _
  · have hi : i < rows := hi
    have hj : j < m.cols := hj
    have hkept : get { m with rows := rows, data := m.data.resized (rows * m.cols) } i j =
        m.get i j := by
      simp [get, Coords.resized, offset_lt hi hj]
    rw [hkept, reshaped, get_ofFn _ hi hj]
    split_ifs with hold
    · rfl
    · exact get_of_rows_le hm (by omega)

/-- The cells that stay are copied into a zero matrix, row after row. -/
lemma copyRows_eq (hm : m.WellShaped) (rows cols : ℕ) :
    (List.range (min rows m.rows)).foldlM (m.copyRow cols (min cols m.cols))
      (Coords.zeros (rows * cols)) = .ok (m.reshaped rows cols).data := by
  -- the rows before the current one have been copied
  let copied (k : ℕ) : DenseMatrix α := ofFn rows cols fun i j =>
    if i < k ∧ j < min cols m.cols then m.get i j else 0
  have hrow : ∀ k < min rows m.rows,
      m.copyRow cols (min cols m.cols) (copied k).data k = .ok (copied (k + 1)).data := by
    intro k hk
    have hcells : (ofFn rows cols fun i j =>
        if i = k ∧ j < (Coords.tabulate (min cols m.cols) (m.get k)).size then
          (Coords.tabulate (min cols m.cols) (m.get k)).coord j
        else if i < k ∧ j < min cols m.cols then m.get i j else 0) = copied (k + 1) := by
      refine ofFn_congr fun i _ j _ => ?_
      rw [Coords.size_tabulate, Coords.coord_tabulate]
      grind
    rw [copyRow, slice_data hm (hk.trans_le (min_le_right _ _)) (min_le_right _ _), ← hcells]
    have hlast : (k + 1) * cols ≤ rows * cols :=
      Nat.mul_le_mul_right cols (hk.trans_le (min_le_left _ _))
    exact overwrite_data_ofFn hlast (by simp)
  have hloop := foldlM_range_eq_ok (fun k => (copied k).data) hrow
  have hstart : copied 0 = zeros rows cols := ofFn_congr fun i _ j _ => by simp
  have hend : copied (min rows m.rows) = m.reshaped rows cols :=
    ofFn_congr fun i hi j hj => by grind
  have hzeros : (zeros rows cols : DenseMatrix α).data = Coords.zeros (rows * cols) := rfl
  rwa [hstart, hend, hzeros] at hloop

/-- Both ways of reshaping a well-shaped matrix come to the same. -/
theorem reshape_eq (hm : m.WellShaped) (rows cols : ℕ) :
    m.reshape rows cols = .ok (m.reshaped rows cols) := by
  rw [reshape]
  split_ifs with hcols
  · rw [hcols]
    exact congrArg Except.ok (resized_eq hm rows)
  · rw [copyRows_eq hm]
    rfl

@[simp] lemma rows_reshaped (m : DenseMatrix α) (rows cols : ℕ) :
    (m.reshaped rows cols).rows = rows := rfl

@[simp] lemma cols_reshaped (m : DenseMatrix α) (rows cols : ℕ) :
    (m.reshaped rows cols).cols = cols := rfl

lemma wellShaped_reshaped (m : DenseMatrix α) (rows cols : ℕ) :
    (m.reshaped rows cols).WellShaped := wellShaped_ofFn rows cols _

lemma get_reshaped (m : DenseMatrix α) (hi : i < rows) (hj : j < cols) :
    (m.reshaped rows cols).get i j = if i < m.rows ∧ j < m.cols then m.get i j else 0 :=
  get_ofFn _ hi hj

/-! ### One more row -/

/-- A matrix given by a function takes a row of its length, and is then given by a function that has
the cells of this row after the others. -/
theorem appendRow_ofFn {rows cols : ℕ} {f g : ℕ → ℕ → α} {cells : Coords α}
    (hsize : cells.size = cols) (hold : ∀ i < rows, ∀ j < cols, g i j = f i j)
    (hnew : ∀ j < cols, g rows j = cells.coord j) :
    (ofFn rows cols f).appendRow cells = .ok (ofFn (rows + 1) cols g) := by
  have hcheck : (cells.size == (ofFn rows cols f).cols) = true := beq_iff_eq.mpr hsize
  have hdata : (ofFn rows cols f).data.size = rows * cols := wellShaped_ofFn rows cols f
  have hpush : (ofFn rows cols f).appendRow cells =
      .ok ⟨rows + 1, cols, (ofFn rows cols f).data ++ cells⟩ := by
    rw [appendRow, hcheck]
    rfl
  have hwell : WellShaped ⟨rows + 1, cols, (ofFn rows cols f).data ++ cells⟩ := by
    simp only [WellShaped, Array.size_append, hdata, hsize]
    exact (Nat.succ_mul rows cols).symm
  rw [hpush]
  refine congrArg Except.ok (ext_get hwell (wellShaped_ofFn (rows + 1) cols g) rfl rfl ?_)
  intro i (hi : i < rows + 1) j (hj : j < cols)
  rw [get_ofFn g hi hj, get, Coords.coord_append, hdata]
  obtain hi | rfl := Nat.lt_succ_iff_lt_or_eq.mp hi
  · rw [if_pos (offset_lt hi hj), hold i hi j hj, ← get_ofFn f hi hj]
    rfl
  · rw [if_neg (Nat.not_lt.mpr (Nat.le_add_right _ _)), Nat.add_sub_cancel_left, hnew j hj]

end LinProg.DenseMatrix
