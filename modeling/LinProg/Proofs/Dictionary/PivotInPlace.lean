import LinProg.Proofs.Dictionary.WellFormed
import LinProg.Dictionary.InPlace

/-!
The pivot in place is the exchange of all entries at once.

* `foldlM_cells`, `foldlM_coords`: loops that write one row of a matrix, or a vector, from left to
  right.
* `Dictionary.withCells`: a dictionary with its entries given by functions. Each phase of the pivot
  leads from such a dictionary to one, and finds every index that it asks for:
  `WellFormed.solveRow_eq`, `substituteRows_withCells`, `substituteObjective_withCells`,
  `exchangeRoles_withCells`.
* `WellFormed.exchangeInPlace_eq`, `WellFormed.pivotInPlace_eq`: the phases together are the
  exchange, and pivoting in place is pivoting.
-/

namespace LinProg

variable {α : Type} [Scalar α]

/-! ### Loops -/

section Loops

variable {rows cols n i : ℕ} {P : ℕ → Prop} [DecidablePred P]

/-- A loop that writes the cells of one row at the places of `P`, from left to right. A step may
read the other rows, and its own row from its own column on. -/
lemma foldlM_cells {f : ℕ → ℕ → α} {x : ℕ → α}
    {step : DenseMatrix α → ℕ → Except Fault (DenseMatrix α)}
    (h : ∀ g : ℕ → ℕ → α, ∀ j < n, (∀ r c, r ≠ i ∨ j ≤ c → g r c = f r c) →
      step (.ofFn rows cols g) j = .ok (.ofFn rows cols fun r c =>
        if r = i ∧ c = j ∧ P j then x j else g r c)) :
    (List.range n).foldlM step (.ofFn rows cols f) = .ok (.ofFn rows cols fun r c =>
      if r = i ∧ c < n ∧ P c then x c else f r c) := by
  let state (k : ℕ) : DenseMatrix α := .ofFn rows cols fun r c =>
    if r = i ∧ c < k ∧ P c then x c else f r c
  have hstart : state 0 = .ofFn rows cols f := DenseMatrix.ofFn_congr fun r _ c _ => by simp
  rw [← hstart]
  refine foldlM_range_eq_ok state fun k hk => (h _ k hk fun r c hrc => if_neg ?_).trans ?_
  · omega
  · exact congrArg Except.ok (DenseMatrix.ofFn_congr fun r _ c _ => by grind)

omit [Scalar α] in
/-- A loop that writes the entries of a vector at the places of `P`, from left to right. A step may
read the vector from its own index on. -/
lemma foldlM_coords {f : ℕ → α} {x : ℕ → α} {step : Coords α → ℕ → Except Fault (Coords α)}
    {size : ℕ} (h : ∀ g : ℕ → α, ∀ j < n, (∀ c, j ≤ c → g c = f c) →
      step (.tabulate size g) j = .ok (.tabulate size fun c =>
        if c = j ∧ P j then x j else g c)) :
    (List.range n).foldlM step (.tabulate size f) = .ok (.tabulate size fun c =>
      if c < n ∧ P c then x c else f c) := by
  let state (k : ℕ) : Coords α := .tabulate size fun c => if c < k ∧ P c then x c else f c
  have hstart : state 0 = .tabulate size f := Coords.tabulate_congr fun c _ => by simp
  rw [← hstart]
  refine foldlM_range_eq_ok state fun k hk => (h _ k hk fun c hc => if_neg ?_).trans ?_
  · omega
  · exact congrArg Except.ok (Coords.tabulate_congr fun c _ => by grind)

end Loops

namespace Dictionary

variable {d : Dictionary α} {e l i j : ℕ} {f : ℕ → ℕ → α} {g h : ℕ → α}

/-! ### Roles -/

section Roles

omit [Scalar α]

lemma isBasicInPlace_eq_ok (hj : j < d.numVariables) : InPlace.isBasic d j = .ok (d.isBasic j) := by
  rw [InPlace.isBasic, role, isBasic, Array.getElem?_eq_getElem hj]
  cases d.roles[j] <;> rfl

variable {σ : Type} {step : σ → ℕ → Except Fault σ} {state : σ}

lemma whenNonbasic_eq (hj : j < d.numVariables) : InPlace.whenNonbasic d step state j =
    if d.isNonbasic j then step state j else .ok state := by
  rw [InPlace.whenNonbasic, isBasicInPlace_eq_ok hj]
  by_cases hb : d.isBasic j
  · simp [hb, isNonbasic_eq_false hb, bind, Except.bind, pure, Except.pure]
  · simp [hb, (isNonbasic_iff_not_isBasic hj).mpr hb, bind, Except.bind]

end Roles

/-- A loop over the nonbasic variables other than `e` that writes their cells of one row. -/
lemma forOthers_cells {rows cols : ℕ} {x : ℕ → α}
    {step : DenseMatrix α → ℕ → Except Fault (DenseMatrix α)}
    (hstep : ∀ g : ℕ → ℕ → α, ∀ j < d.numVariables, (∀ r c, r ≠ i ∨ j ≤ c → g r c = f r c) →
      step (.ofFn rows cols g) j = .ok (.ofFn rows cols fun r c =>
        if r = i ∧ c = j then x j else g r c)) :
    InPlace.forOthers d e step (.ofFn rows cols f) = .ok (.ofFn rows cols fun r c =>
      if r = i ∧ c ≠ e ∧ d.isNonbasic c then x c else f r c) := by
  refine (foldlM_cells (P := fun c => c ≠ e ∧ d.isNonbasic c) (i := i) (f := f) (x := x)
    fun g j hj hg => ?_).trans ?_
  · by_cases hje : j = e
    · simp [hje, pure, Except.pure]
    · simp only [hje, if_false, whenNonbasic_eq hj]
      by_cases hn : d.isNonbasic j
      · simp [hn, hje, hstep g j hj hg]
      · simp [hn]
  · refine congrArg Except.ok (DenseMatrix.ofFn_congr fun r _ c _ => if_congr ?_ rfl rfl)
    exact and_congr_right fun _ => and_iff_right_of_imp fun hc => isNonbasic_lt hc.2

omit [Scalar α] in
/-- A loop over the nonbasic variables other than `e` that writes their entries of a vector. -/
lemma forOthers_coords {size : ℕ} {x : ℕ → α} {step : Coords α → ℕ → Except Fault (Coords α)}
    (hstep : ∀ c : ℕ → α, ∀ j < d.numVariables, (∀ k, j ≤ k → c k = g k) →
      step (.tabulate size c) j = .ok (.tabulate size fun k => if k = j then x j else c k)) :
    InPlace.forOthers d e step (.tabulate size g) = .ok (.tabulate size fun k =>
      if k ≠ e ∧ d.isNonbasic k then x k else g k) := by
  refine (foldlM_coords (P := fun k => k ≠ e ∧ d.isNonbasic k) (f := g) (x := x)
    fun c j hj hc => ?_).trans ?_
  · by_cases hje : j = e
    · simp [hje, pure, Except.pure]
    · simp only [hje, if_false, whenNonbasic_eq hj]
      by_cases hn : d.isNonbasic j
      · simp [hn, hje, hstep c j hj hc]
      · simp [hn]
  · refine congrArg Except.ok (Coords.tabulate_congr fun k _ => if_congr ?_ rfl rfl)
    exact and_iff_right_of_imp fun hk => isNonbasic_lt hk.2

/-! ### Entries given by functions -/

/-- The dictionary with other entries. -/
def withCells (d : Dictionary α) (f : ℕ → ℕ → α) (g h : ℕ → α) : Dictionary α :=
  { d with
    a := .ofFn d.numVariables d.numVariables f
    b := .tabulate d.numVariables g
    c := .tabulate d.numVariables h }

/-- A dictionary of the right shape is told by its entries. -/
lemma WellFormed.withCells_eq (hd : d.WellFormed) :
    d.withCells d.a.get d.b.coord d.c.coord = d := by
  rw [withCells, DenseMatrix.ofFn_get hd.wellShaped_a hd.rows_a hd.cols_a,
    Coords.tabulate_coord hd.size_b, Coords.tabulate_coord hd.size_c]

section Parts

omit [Scalar α]

@[simp] lemma numVariables_withCells : (d.withCells f g h).numVariables = d.numVariables := rfl

lemma a_withCells : (d.withCells f g h).a = .ofFn d.numVariables d.numVariables f := rfl

lemma b_withCells : (d.withCells f g h).b = .tabulate d.numVariables g := rfl

lemma c_withCells : (d.withCells f g h).c = .tabulate d.numVariables h := rfl

end Parts

lemma withCells_congr {f' : ℕ → ℕ → α} {g' h' : ℕ → α}
    (hf : ∀ i < d.numVariables, ∀ j < d.numVariables, f i j = f' i j)
    (hg : ∀ i < d.numVariables, g i = g' i) (hh : ∀ j < d.numVariables, h j = h' j) :
    d.withCells f g h = d.withCells f' g' h' := by
  rw [withCells, withCells, DenseMatrix.ofFn_congr hf, Coords.tabulate_congr hg,
    Coords.tabulate_congr hh]

/-- A cell after the row of `l` is solved for the variable `e`. -/
def preparedCell (d : Dictionary α) (e l i j : ℕ) : α :=
  if i = e then d.solvedCell e l j else d.a.get i j

/-- A cell of a row with the row of the entering variable `e` put in. -/
def substitutedCell (d : Dictionary α) (e l : ℕ) (f : ℕ → ℕ → α) (i j : ℕ) : α :=
  if j = e then 0
  else if j = l then -f i e * f e l
  else if d.isNonbasic j then f i j - f i e * f e j
  else f i j

section Phases

variable (he : d.isNonbasic e) (hl : d.isBasic l)
include he hl

/-- The row of the leaving variable is solved for the entering one. -/
lemma WellFormed.solveRow_eq (hd : d.WellFormed) : InPlace.solveRow d e l = .ok (d.withCells
    (d.preparedCell e l) (Function.update d.b.coord e (d.solvedRhs e l)) d.c.coord) := by
  have hen := isNonbasic_lt he
  have hln := isBasic_lt hl
  have hle := ne_of_isBasic_of_isNonbasic hl he
  have hloop : InPlace.forOthers d e (InPlace.solveCell e l (d.a.get l e))
      (.ofFn d.numVariables d.numVariables d.a.get) =
      .ok (.ofFn d.numVariables d.numVariables fun r c =>
        if r = e ∧ c ≠ e ∧ d.isNonbasic c then d.a.get l c / d.a.get l e else d.a.get r c) := by
    refine forOthers_cells fun a j hj ha => ?_
    rw [InPlace.solveCell, DenseMatrix.entry_ofFn a hln hj, ha l j (.inl hle)]
    exact DenseMatrix.set_ofFn a hen hj _
  have hcells : (DenseMatrix.ofFn d.numVariables d.numVariables fun r c =>
      if r = e ∧ c = l then 1 / d.a.get l e
      else if r = e ∧ c ≠ e ∧ d.isNonbasic c then d.a.get l c / d.a.get l e else d.a.get r c) =
      .ofFn d.numVariables d.numVariables (d.preparedCell e l) :=
    DenseMatrix.ofFn_congr fun r _ c _ => by grind [preparedCell, solvedCell, pivotCell]
  conv_lhs => rw [← hd.withCells_eq]
  simp only [InPlace.solveRow, a_withCells, b_withCells, DenseMatrix.entry_ofFn _ hln hen,
    Coords.entry_tabulate hln, Coords.store_tabulate hen, ok_bind]
  rw [show InPlace.forOthers (d.withCells d.a.get d.b.coord d.c.coord) e
    (InPlace.solveCell e l (d.a.get l e)) (.ofFn d.numVariables d.numVariables d.a.get) = _
    from hloop, ok_bind, DenseMatrix.set_ofFn _ hen hln, hcells]
  rfl

/-- The row of the entering variable is put into one of the other basic rows. -/
lemma substituteRow_withCells (hi : d.isBasic i) :
    InPlace.substituteRow e l (d.withCells f g h) i = .ok (d.withCells
      (fun r c => if r = i then d.substitutedCell e l f i c else f r c)
      (Function.update g i (g i - f i e * g e)) h) := by
  have hen := isNonbasic_lt he
  have hln := isBasic_lt hl
  have hin := isBasic_lt hi
  have hie := ne_of_isBasic_of_isNonbasic hi he
  have hei : ¬ (e = i ∧ l ≠ e ∧ d.isNonbasic l) := fun hc => hie hc.1.symm
  have hloop : InPlace.forOthers (d.withCells f g h) e (InPlace.substituteCell e i (f i e))
      (.ofFn d.numVariables d.numVariables f) =
      .ok (.ofFn d.numVariables d.numVariables fun r c =>
        if r = i ∧ c ≠ e ∧ d.isNonbasic c then f i c - f i e * f e c else f r c) := by
    refine forOthers_cells (d := d) fun a j hj ha => ?_
    rw [InPlace.substituteCell, DenseMatrix.entry_ofFn a hin hj, DenseMatrix.entry_ofFn a hen hj,
      ha i j (.inr le_rfl), ha e j (.inl hie.symm)]
    exact DenseMatrix.set_ofFn a hin hj _
  have hcells : (DenseMatrix.ofFn d.numVariables d.numVariables fun r c =>
      if r = i ∧ c = e then 0
      else if r = i ∧ c = l then -f i e * f e l
      else if r = i ∧ c ≠ e ∧ d.isNonbasic c then f i c - f i e * f e c else f r c) =
      .ofFn d.numVariables d.numVariables fun r c =>
        if r = i then d.substitutedCell e l f i c else f r c :=
    DenseMatrix.ofFn_congr fun r _ c _ => by grind [substitutedCell]
  simp only [InPlace.substituteRow, a_withCells, b_withCells, DenseMatrix.entry_ofFn _ hin hen,
    DenseMatrix.entry_ofFn _ hen hln, Coords.entry_tabulate hen, Coords.entry_tabulate hin,
    Coords.store_tabulate hin, ok_bind, hloop, if_neg hei, DenseMatrix.set_ofFn _ hin hln,
    DenseMatrix.set_ofFn _ hin hen, hcells]
  rfl

/-- The row of the entering variable is put into all other basic rows, one after another, and stays
as it is. -/
lemma substituteRows_withCells : InPlace.substituteRows (d.withCells f g h) e l = .ok (d.withCells
    (fun r c => if d.isBasic r ∧ r ≠ l then d.substitutedCell e l f r c else f r c)
    (fun r => if d.isBasic r ∧ r ≠ l then g r - f r e * g e else g r) h) := by
  let state (k : ℕ) : Dictionary α := d.withCells
    (fun r c => if r < k ∧ d.isBasic r ∧ r ≠ l then d.substitutedCell e l f r c else f r c)
    (fun r => if r < k ∧ d.isBasic r ∧ r ≠ l then g r - f r e * g e else g r) h
  have hstart : state 0 = d.withCells f g h :=
    withCells_congr (fun _ _ _ _ => by simp) (fun _ _ => by simp) fun _ _ => rfl
  have heb := not_isBasic_of_isNonbasic he
  have hrow : ∀ k < d.numVariables,
      InPlace.substituteBasic e l (state k) k = .ok (state (k + 1)) := by
    intro k hk
    have hrole : InPlace.isBasic (state k) k = .ok (d.isBasic k) := isBasicInPlace_eq_ok hk
    rw [InPlace.substituteBasic, hrole, ok_bind]
    by_cases hactive : d.isBasic k ∧ k ≠ l
    · rw [if_neg hactive.2, if_pos hactive.1, substituteRow_withCells he hl hactive.1]
      refine congrArg Except.ok (withCells_congr (fun r _ c _ => ?_) (fun r _ => ?_) fun _ _ => rfl)
      · grind [substitutedCell]
      · grind [Function.update_apply]
    · have hsame : state k = state (k + 1) :=
        withCells_congr (fun r _ c _ => by grind) (fun r _ => by grind) fun _ _ => rfl
      rw [← hsame]
      by_cases hkl : k = l
      · exact if_pos hkl
      · have hkb : ¬ d.isBasic k := fun hkb => hactive ⟨hkb, hkl⟩
        rw [if_neg hkl, if_neg hkb]
        rfl
  rw [InPlace.substituteRows, ← hstart]
  refine (foldlM_range_eq_ok state hrow).trans (congrArg Except.ok (withCells_congr
    (fun r hr c _ => ?_) (fun r hr => ?_) fun _ _ => rfl))
  · exact if_congr (and_iff_right hr) rfl rfl
  · exact if_congr (and_iff_right hr) rfl rfl

/-- The row of the entering variable is put into the objective. -/
lemma substituteObjective_withCells :
    InPlace.substituteObjective (d.withCells f g h) e l = .ok { d.withCells f g (fun c =>
        if c = e then 0 else if c = l then -h e * f e l
        else if d.isNonbasic c then h c - h e * f e c else h c) with
      constant := d.constant + h e * g e } := by
  have hen := isNonbasic_lt he
  have hln := isBasic_lt hl
  have hloop : InPlace.forOthers (d.withCells f g h) e
      (InPlace.substituteCost (.ofFn d.numVariables d.numVariables f) e (h e))
      (.tabulate d.numVariables h) =
      .ok (.tabulate d.numVariables fun c =>
        if c ≠ e ∧ d.isNonbasic c then h c - h e * f e c else h c) := by
    refine forOthers_coords (d := d) fun a j hj ha => ?_
    rw [InPlace.substituteCost, Coords.entry_tabulate hj, DenseMatrix.entry_ofFn f hen hj,
      ha j le_rfl]
    exact (Coords.store_tabulate hj _).trans (congrArg Except.ok (Coords.tabulate_congr
      fun k _ => Function.update_apply a j _ k))
  simp only [InPlace.substituteObjective, a_withCells, b_withCells, c_withCells,
    DenseMatrix.entry_ofFn f hen hln, Coords.entry_tabulate hen, Coords.store_tabulate hen,
    Coords.store_tabulate hln, ok_bind, hloop]
  refine congrArg (fun c => Except.ok { d.withCells f g h with
    c := c, constant := d.constant + h e * g e }) (Coords.tabulate_congr fun c _ => ?_)
  grind [Function.update_apply]

/-- The row of the leaving variable is cleared and the roles are exchanged. -/
lemma exchangeRoles_withCells {constant : α} :
    InPlace.exchangeRoles { d.withCells f g h with constant := constant } e l = .ok
      { d.withCells (fun r c => if r = l then 0 else f r c) (Function.update g l 0) h with
        constant := constant
        roles := (d.roles.setIfInBounds e .basic).setIfInBounds l .nonbasic
        pivots := d.pivots + 1 } := by
  have hen := isNonbasic_lt he
  have hln := isBasic_lt hl
  have hclear : (DenseMatrix.ofFn d.numVariables d.numVariables f).overwriteRow l
      (Coords.zeros d.numVariables) =
      .ok (.ofFn d.numVariables d.numVariables fun r c => if r = l then 0 else f r c) := by
    rw [DenseMatrix.overwriteRow_ofFn (Nat.mul_le_mul_right _ hln) (Coords.size_zeros _).le]
    refine congrArg Except.ok (DenseMatrix.ofFn_congr fun r _ c hc => ?_)
    simp [hc]
  have henter : Coords.store d.roles e .basic = .ok (d.roles.setIfInBounds e .basic) :=
    Coords.store_eq_ok hen
  have hleave : Coords.store (d.roles.setIfInBounds e .basic) l .nonbasic =
      .ok ((d.roles.setIfInBounds e .basic).setIfInBounds l .nonbasic) :=
    Coords.store_eq_ok (by rw [Array.size_setIfInBounds]; exact hln)
  simp only [InPlace.exchangeRoles, withCells, DenseMatrix.cols_ofFn, hclear,
    Coords.store_tabulate hln, henter, hleave, ok_bind]
  rfl

/-- The phases come to the exchange of all entries at once. -/
theorem WellFormed.exchangeInPlace_eq (hd : d.WellFormed) :
    InPlace.exchange d e l = .ok (d.exchange e l) := by
  have hle := ne_of_isBasic_of_isNonbasic hl he
  have heb : ¬ (d.isBasic e ∧ e ≠ l) := fun h => not_isBasic_of_isNonbasic he h.1
  have hrow : ∀ j, d.preparedCell e l e j = d.solvedCell e l j := fun j => if_pos rfl
  have hcell : ∀ i < d.numVariables, ∀ j < d.numVariables,
      (if i = l then 0
        else if d.isBasic i ∧ i ≠ l then d.substitutedCell e l (d.preparedCell e l) i j
        else d.preparedCell e l i j) = d.exchangedCell e l i j :=
    fun i _ j _ => by grind [preparedCell, substitutedCell, exchangedCell]
  have hrhs : ∀ i < d.numVariables,
      Function.update (fun i => if d.isBasic i ∧ i ≠ l then
          Function.update d.b.coord e (d.solvedRhs e l) i -
            d.preparedCell e l i e * d.solvedRhs e l
        else Function.update d.b.coord e (d.solvedRhs e l) i) l 0 i = d.exchangedRhs e l i :=
    fun i _ => by grind [Function.update_apply, preparedCell, exchangedRhs]
  have hcost : ∀ j < d.numVariables,
      (if j = e then 0 else if j = l then -d.c.coord e * d.solvedCell e l l
        else if d.isNonbasic j then d.c.coord j - d.c.coord e * d.solvedCell e l j
        else d.c.coord j) = d.exchangedCost e l j := fun _ _ => rfl
  rw [InPlace.exchange, hd.solveRow_eq he hl, ok_bind, substituteRows_withCells he hl, ok_bind,
    substituteObjective_withCells he hl, ok_bind, exchangeRoles_withCells he hl]
  simp only [if_neg heb, hrow, Function.update_self]
  rw [withCells_congr hcell hrhs hcost]
  rfl

end Phases

/-! ### The pivot -/

/-- The pivots that are legal in place are the legal ones. -/
lemma WellFormed.checkPivotInPlace_eq (hd : d.WellFormed) (e l : ℕ) :
    InPlace.checkPivot d e l = d.checkPivot e l := by
  rw [InPlace.checkPivot, checkPivot, InPlace.isBasic, InPlace.isBasic]
  cases hentering : d.role e with
  | error fault => rfl
  | ok entering =>
      cases hleaving : d.role l with
      | error fault => rfl
      | ok leaving =>
          have he : e < d.a.cols := by
            rw [hd.cols_a]
            exact (Array.getElem?_eq_some_iff.mp (role_eq_ok.mp hentering)).1
          have hl : l < d.a.rows := by
            rw [hd.rows_a]
            exact (Array.getElem?_eq_some_iff.mp (role_eq_ok.mp hleaving)).1
          rw [DenseMatrix.entry_eq_ok hd.wellShaped_a hl he]
          cases entering <;> cases leaving <;> rfl

/-- Pivoting in place is pivoting, whether or not the pivot is legal. -/
theorem WellFormed.pivotInPlace_eq (hd : d.WellFormed) (e l : ℕ) :
    InPlace.pivot d e l = d.pivot e l := by
  rw [InPlace.pivot, pivot, hd.checkPivotInPlace_eq]
  cases hcheck : d.checkPivot e l with
  | error fault => rfl
  | ok u =>
      have hlegal := checkPivot_eq_ok.mp hcheck
      rw [hd.exchangeInPlace_eq hlegal.isNonbasic hlegal.isBasic]
      rfl

end Dictionary

end LinProg
