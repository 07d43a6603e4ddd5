import LinProg.Proofs.Dictionary.History
import LinProg.Proofs.Dictionary.PivotInPlace

/-!
The engine in place finds every index that it asks for and gives what the engine gives.

* `WellFormed.choiceInPlace_eq`, `WellFormed.simplexInPlace_eq`: the choice and the loop.
* `WellFormed.attachInPlace_eq`, `WellFormed.expelInPlace_eq`, `detachInPlace_eq`: the auxiliary
  variable is added, made nonbasic and dropped with the objective put back.
* `WellFormed.phaseOneInPlace_eq`, `WellFormed.solveInPlace_eq`: one phase, and both.
* `ofStandardFormInPlace_eq`, `runInPlace_eq`: the dictionary of a well-shaped program, and a run
  from there.
-/

namespace LinProg

/-- What comes after a first part matters only for the value that it gives. -/
lemma Traced.bind_congr_of_eq_ok {α β γ : Type} {x : Traced α β} {f g : β → Traced α γ}
    (h : ∀ b, x.result = .ok b → f b = g b) : x >>= f = x >>= g := by
  obtain ⟨events, result⟩ := x
  cases result with
  | error fault => rfl
  | ok b => simp only [bind, Traced.andThen, h b rfl]

lemma Traced.ok_bind {α β γ : Type} (b : β) (f : β → Traced α γ) :
    (monadLift (Except.ok b : Except Fault β) : Traced α β) >>= f = f b := rfl

/-- A search with tests that succeed. -/
lemma findM?_eq_ok {ε β : Type} {p : β → Except ε Bool} {q : β → Bool} {xs : List β}
    (h : ∀ x ∈ xs, p x = .ok (q x)) : xs.findM? p = .ok (xs.find? q) := by
  induction xs with
  | nil => rfl
  | cons x xs ih =>
      rw [List.findM?, h x (by simp), ok_bind, List.find?_cons]
      cases q x with
      | true => rfl
      | false => exact ih fun x hx => h x (by simp [hx])

variable {α : Type} [Scalar α]

namespace Dictionary

variable {d saved : Dictionary α} {e l i j n : ℕ}

/-! ### Reading -/

namespace WellFormed

variable (hd : d.WellFormed)
include hd

lemma entry_eq_ok (hi : i < d.numVariables) (hj : j < d.numVariables) :
    d.a.entry i j = .ok (d.a.get i j) :=
  DenseMatrix.entry_eq_ok hd.wellShaped_a (hd.rows_a ▸ hi) (hd.cols_a ▸ hj)

lemma entry_b (hi : i < d.numVariables) : d.b.entry i = .ok (d.b.coord i) :=
  Coords.entry_eq_ok (hd.size_b ▸ hi)

lemma entry_c (hj : j < d.numVariables) : d.c.entry j = .ok (d.c.coord j) :=
  Coords.entry_eq_ok (hd.size_c ▸ hj)

/-! ### The loop -/

/-- The choice reads costs, right-hand sides and cells that are there. -/
lemma choiceInPlace_eq : InPlace.choice d = .ok d.choice := by
  have henter : InPlace.entering? d = .ok d.entering? := findM?_eq_ok fun j hj => by
    rw [hd.entry_c (isNonbasic_lt (mem_nonbasics.mp hj))]
    rfl
  rw [InPlace.choice, henter, choice, ok_bind]
  cases hentering : d.entering? with
  | none => rfl
  | some e =>
      have he : e < d.numVariables :=
        isNonbasic_lt (mem_nonbasics.mp (List.mem_of_find?_eq_some hentering))
      have htight : d.basics.foldlM (InPlace.compareRow d e) none = .ok (d.tightest? e) := by
        rw [tightest?, List.foldl_filter]
        refine foldlM_eq_ok (fun i hi best? => ?_) none
        have hi := isBasic_lt (mem_basics.mp hi)
        rw [InPlace.compareRow, hd.entry_eq_ok hi he, ok_bind, hd.entry_b hi]
        by_cases hpos : 0 < d.a.get i e
        · simp only [hpos, if_true, decide_true]
          rfl
        · simp only [hpos, if_false, decide_false]
          rfl
      dsimp only
      rw [htight, ok_bind]
      cases d.tightest? e <;> rfl

/-- The loop in place makes the pivots of the loop. -/
theorem simplexInPlace_eq (limit : ℕ) : InPlace.simplexWithin limit d = d.simplexWithin limit := by
  induction limit generalizing d with
  | zero =>
      rw [InPlace.simplexWithin, hd.choiceInPlace_eq, simplexWithin]
      cases d.choice <;> rfl
  | succ limit ih =>
      rw [InPlace.simplexWithin, hd.choiceInPlace_eq, simplexWithin]
      cases d.choice with
      | optimal => rfl
      | unbounded e => rfl
      | pivot e l =>
          change (InPlace.pivot d e l >>= fun next => InPlace.simplexWithin limit next) =
            (d.pivot e l >>= fun next => simplexWithin limit next)
          rw [hd.pivotInPlace_eq]
          exact Traced.bind_congr_of_eq_ok fun next hnext => ih (grows_of_pivot hd hnext).wellFormed

/-! ### The auxiliary variable -/

/-- The scan for the lowest row reads right-hand sides that are there. -/
lemma lowestRowInPlace_eq : InPlace.lowestRow? d = .ok d.lowestRow? := by
  unfold InPlace.lowestRow? lowestRow?
  dsimp only
  rw [foldlM_eq_ok (g := fun lowest i =>
    if d.b.coord i < lowest.1 then (d.b.coord i, some i) else lowest) fun i hi lowest => ?_]
  · rfl
  · rw [hd.entry_b (isBasic_lt (mem_basics.mp hi))]
    rfl

omit hd in
/-- The rows of the grown matrix get their last cells one after another, where they are basic in a
dictionary with one nonbasic variable more. -/
lemma attachCells_eq {r : Dictionary α} (hnum : r.numVariables = d.numVariables + 1)
    (hbasic : ∀ k, r.isBasic k = d.isBasic k) :
    (List.range d.numVariables).foldlM (InPlace.attachCell r d.numVariables)
      (d.a.reshaped (d.numVariables + 1) (d.numVariables + 1)) = .ok d.withAuxiliary.a := by
  let state (k : ℕ) : DenseMatrix α := .ofFn (d.numVariables + 1) (d.numVariables + 1) fun i j =>
    if i < k ∧ j = d.numVariables ∧ d.isBasic i then -1
    else (d.a.reshaped (d.numVariables + 1) (d.numVariables + 1)).get i j
  have hstart : state 0 = d.a.reshaped (d.numVariables + 1) (d.numVariables + 1) := by
    rw [← DenseMatrix.ofFn_get (DenseMatrix.wellShaped_reshaped d.a (d.numVariables + 1)
      (d.numVariables + 1)) rfl rfl]
    exact DenseMatrix.ofFn_congr fun i _ j _ => by simp
  have hrow : ∀ k < d.numVariables,
      InPlace.attachCell r d.numVariables (state k) k = .ok (state (k + 1)) := by
    intro k hk
    have hrole : InPlace.isBasic r k = .ok (d.isBasic k) := by
      rw [isBasicInPlace_eq_ok (by omega), hbasic]
    rw [InPlace.attachCell, hrole, ok_bind]
    by_cases hb : d.isBasic k
    · rw [if_pos hb, DenseMatrix.set_ofFn _ (by omega) (by omega)]
      exact congrArg Except.ok (DenseMatrix.ofFn_congr fun i _ j _ => by grind)
    · rw [if_neg hb]
      exact congrArg Except.ok (DenseMatrix.ofFn_congr fun i _ j _ => by grind)
  have hactive : ∀ i j, i < d.numVariables ∧ j = d.numVariables ∧ d.isBasic i ↔
      j = d.numVariables ∧ d.isBasic i := fun i j => and_iff_right_of_imp fun h => isBasic_lt h.2
  have hend : state d.numVariables = d.withAuxiliary.a := by
    simp only [state, hactive]
    rfl
  rw [← hstart, ← hend]
  exact foldlM_range_eq_ok state hrow

/-- The auxiliary variable is attached in place as it is at once. -/
lemma attachInPlace_eq : InPlace.attach d = .ok d.withAuxiliary := by
  have hcosts : (Coords.zeros (d.numVariables + 1)).store d.numVariables (-1) =
      .ok d.withAuxiliary.c := by
    rw [Coords.zeros, Coords.store_tabulate (Nat.lt_succ_self _)]
    exact congrArg Except.ok (Coords.tabulate_congr fun j _ => Function.update_apply _ _ _ _)
  have hcells := attachCells_eq
    (r := { d with b := d.b.push 0, roles := d.roles.push .nonbasic })
    (numVariables_withAuxiliary d) fun k => by
      rw [Bool.eq_iff_iff]
      exact isBasic_withAuxiliary
  rw [InPlace.attach, DenseMatrix.reshape_eq hd.wellShaped_a, ok_bind]
  dsimp only
  rw [hcells, ok_bind, hcosts]
  rfl

/-- The scan for the steepest coefficient reads cells that are there. -/
lemma steepestInPlace_eq (hi : i < d.numVariables) :
    InPlace.steepest? d i = .ok (d.steepest? i) := by
  unfold InPlace.steepest? steepest?
  dsimp only
  rw [foldlM_eq_ok (g := fun largest j =>
    if largest.1 < Scalar.abs (d.a.get i j) then (Scalar.abs (d.a.get i j), some j) else largest)
    fun j hj largest => ?_]
  · rfl
  · rw [hd.entry_eq_ok hi (isNonbasic_lt (mem_nonbasics.mp hj))]
    rfl

/-- The auxiliary variable is made nonbasic by the same pivot, or left as it is. -/
lemma expelInPlace_eq (hpos : 0 < d.numVariables) : InPlace.expel d = d.expelAuxiliary := by
  have hlast : d.numVariables - 1 < d.numVariables := Nat.sub_one_lt_of_lt hpos
  rw [InPlace.expel, expelAuxiliary, isBasicInPlace_eq_ok hlast]
  cases hb : d.isBasic (d.numVariables - 1) with
  | false => rfl
  | true =>
      change (monadLift (InPlace.steepest? d (d.numVariables - 1)) >>= _ : Traced α _) = _
      rw [hd.steepestInPlace_eq hlast]
      cases d.steepest? (d.numVariables - 1) with
      | none => rfl
      | some j =>
          change (Traced.emit (.auxiliaryDegenerate j) >>= fun _ => InPlace.pivot d j _) = _
          rw [hd.pivotInPlace_eq]
          rfl

/-- Taking a multiple of a row away from costs reads and writes costs and cells that are there. -/
lemma substituteCosts_eq (cost : α) {c : Coords α} (hsize : c.size = d.numVariables)
    (hi : i < d.numVariables) :
    (List.range d.numVariables).foldlM
      (InPlace.whenNonbasic d (InPlace.substituteCost d.a i cost)) c =
      .ok (.tabulate c.size fun j =>
        if d.isNonbasic j then c.coord j - cost * d.a.get i j else c.coord j) := by
  conv_lhs => rw [← Coords.tabulate_coord hsize]
  refine (foldlM_coords (P := fun j => d.isNonbasic j) (f := c.coord)
    (x := fun j => c.coord j - cost * d.a.get i j) fun g j hj hg => ?_).trans ?_
  · rw [whenNonbasic_eq hj]
    by_cases hn : d.isNonbasic j
    · rw [if_pos hn, InPlace.substituteCost, Coords.entry_tabulate hj, hd.entry_eq_ok hi hj,
        hg j le_rfl]
      exact (Coords.store_tabulate hj _).trans (congrArg Except.ok (Coords.tabulate_congr
        fun k _ => by simp [Function.update_apply, hn]))
    · simp [hn]
  · rw [hsize]
    exact congrArg Except.ok (Coords.tabulate_congr fun j hj =>
      if_congr (and_iff_right hj) rfl rfl)

/-- Adding a cost reads and writes costs that are there. -/
lemma addCostInPlace_eq (cost : α) {objective : Coords α × α}
    (hsize : objective.1.size = d.numVariables) (hi : i < d.numVariables) :
    InPlace.addCost d d.numVariables cost objective i = .ok (d.addCost cost objective i) := by
  obtain ⟨c, constant⟩ := objective
  have hsize : c.size = d.numVariables := hsize
  rw [InPlace.addCost, addCost, isBasicInPlace_eq_ok hi, ok_bind]
  by_cases hb : d.isBasic i
  · simp only [hb, if_true, hd.entry_b hi, ok_bind, hd.substituteCosts_eq cost hsize hi]
    rfl
  · have hc : i < c.size := hsize ▸ hi
    simp only [hb, Coords.entry_eq_ok hc, ok_bind, Coords.store_eq_modify hc (· + cost)]
    rfl

end WellFormed

section Detached

variable (hsaved : saved.WellFormed) (h : Grows saved 1 d)
include hsaved h

/-- Once the auxiliary variable is dropped, a saved cost is put back as it is at once. -/
lemma restoreCostInPlace_eq (hn : d.isNonbasic saved.numVariables) (hi : i < saved.numVariables)
    {objective : Coords α × α} (hobjective : objective.1.size = saved.numVariables) :
    InPlace.restoreCost (d.truncate saved.numVariables) saved objective i =
      .ok ((d.truncate saved.numVariables).addCost (saved.c.coord i) objective i) := by
  have hlast : saved.numVariables < d.numVariables := h.numVariables_eq ▸ Nat.lt_succ_self _
  have hsize : (d.truncate saved.numVariables).numVariables = saved.numVariables :=
    numVariables_truncate hlast.le
  -- costs are added to an objective that is put in place only in the end
  have hshrunk := h.wellFormed.truncate h.numVariables_eq hn
    (c := Coords.zeros saved.numVariables) (Coords.size_zeros _)
    (fun j _ => Coords.coord_zeros _ j) 0
  have hadd := hshrunk.addCostInPlace_eq (i := i) (saved.c.coord i)
    (hobjective.trans hsize.symm) (hsize.symm ▸ hi)
  rw [show ({ d.truncate saved.numVariables with
    c := Coords.zeros saved.numVariables, constant := 0 } : Dictionary α).numVariables =
    saved.numVariables from hsize] at hadd
  rw [InPlace.restoreCost, hsaved.entry_c hi, ok_bind]
  exact hadd

/-- The auxiliary variable is dropped, or found to be basic, and the objective put back. -/
lemma detachInPlace_eq : InPlace.detach d saved = d.withoutAuxiliary saved := by
  have hlast : saved.numVariables < d.numVariables := h.numVariables_eq ▸ Nat.lt_succ_self _
  rw [InPlace.detach, withoutAuxiliary, isBasicInPlace_eq_ok hlast, ok_bind]
  cases hb : d.isBasic saved.numVariables with
  | true => rfl
  | false =>
      have hn : d.isNonbasic saved.numVariables :=
        (isNonbasic_iff_not_isBasic hlast).mpr (by simp [hb])
      have hcost : ∀ i ∈ saved.nonbasics, ∀ objective : Coords α × α,
          objective.1.size = saved.numVariables →
          InPlace.restoreCost (d.truncate saved.numVariables) saved objective i =
            .ok ((d.truncate saved.numVariables).addCost (saved.c.coord i) objective i) ∧
          ((d.truncate saved.numVariables).addCost (saved.c.coord i) objective i).1.size =
            saved.numVariables := by
        intro i hi objective hobjective
        refine ⟨restoreCostInPlace_eq hsaved h hn (isNonbasic_lt (mem_nonbasics.mp hi)) hobjective,
          ?_⟩
        rw [addCost]
        split <;> simp [hobjective]
      have hloop := foldlM_eq_ok_of_preserves
        (P := fun objective : Coords α × α => objective.1.size = saved.numVariables) hcost
        (b := (Coords.zeros saved.numVariables, saved.constant)) (Coords.size_zeros _)
      rw [DenseMatrix.reshape_eq h.wellFormed.wellShaped_a]
      change (saved.nonbasics.foldlM (InPlace.restoreCost (d.truncate saved.numVariables) saved)
        (Coords.zeros saved.numVariables, saved.constant) >>= _) = _
      rw [hloop]
      rfl

end Detached

/-! ### The phases -/

/-- Phase one in place is phase one. -/
theorem WellFormed.phaseOneInPlace_eq (hd : d.WellFormed) (limit : ℕ) :
    InPlace.phaseOneWithin limit d = d.phaseOneWithin limit := by
  rw [InPlace.phaseOneWithin, phaseOneWithin, hd.lowestRowInPlace_eq, Traced.ok_bind]
  cases hrow : d.lowestRow? with
  | none => rfl
  | some row =>
      have hattached := grows_withAuxiliary hd
      have hlast : d.withAuxiliary.numVariables - 1 = d.numVariables := by simp
      simp only [hd.entry_b (isBasic_lt (isBasic_of_lowestRow?_eq_some hrow)),
        hd.attachInPlace_eq, Traced.ok_bind, hlast, hattached.wellFormed.pivotInPlace_eq]
      refine Traced.bind_congr_of_eq_ok fun _ _ => ?_
      refine Traced.bind_congr_of_eq_ok fun entered hpivot => ?_
      have hentered := hattached.trans (grows_of_pivot hattached.wellFormed hpivot)
      rw [hentered.wellFormed.simplexInPlace_eq]
      refine Traced.bind_congr_of_eq_ok fun last hloop => ?_
      obtain ⟨outcome, reached⟩ := last
      have hreached := hentered.trans (grows_of_simplexWithin hentered.wellFormed hloop)
      have hpos : 0 < reached.numVariables := by
        rw [hreached.numVariables_eq]
        exact Nat.succ_pos _
      dsimp only
      refine ite_congr rfl (fun _ => rfl) fun _ => ?_
      rw [hreached.wellFormed.expelInPlace_eq hpos]
      refine Traced.bind_congr_of_eq_ok fun driven hdriven => ?_
      rw [detachInPlace_eq hd
        (hreached.trans (grows_of_expelAuxiliary hreached.wellFormed hdriven))]

/-- The values of the variables are computed from right-hand sides, rows and values that are
there. -/
lemma WellFormed.assignmentInPlace_eq (hd : d.WellFormed) {v : Coords α}
    (hv : v.size = d.numVariables) : InPlace.assignment d v = .ok (d.assignment v) := by
  have hvalue : ∀ i ∈ List.range d.numVariables, InPlace.valueOf d v i = .ok
      (if d.isBasic i then d.b.coord i - d.nonbasicSum (d.a.get i) v else v.coord i) := by
    intro i hi
    have hi := List.mem_range.mp hi
    rw [InPlace.valueOf, isBasicInPlace_eq_ok hi, ok_bind]
    by_cases hb : d.isBasic i
    · have hterms : d.nonbasics.mapM (fun j => do
          return (← (Coords.tabulate d.a.cols (d.a.get i)).entry j) * (← v.entry j)) =
          Except.ok (d.nonbasics.map fun j => d.a.get i j * v.coord j) := mapM_eq_ok fun j hj => by
        have hj := isNonbasic_lt (mem_nonbasics.mp hj)
        rw [Coords.entry_tabulate (hd.cols_a ▸ hj), Coords.entry_eq_ok (hv ▸ hj)]
        rfl
      simp only [hb, if_true, DenseMatrix.rowSlice_eq_ok hd.wellShaped_a (hd.rows_a ▸ hi), ok_bind,
        hd.entry_b hi]
      rw [hterms]
      rfl
    · rw [if_neg hb, if_neg hb]
      exact Coords.entry_eq_ok (hv ▸ hi)
  rw [InPlace.assignment, mapM_eq_ok hvalue, assignment]
  refine congrArg Except.ok (Array.ext (by simp) fun i hi _ => ?_)
  simp [Coords.tabulate]

/-- Solving in place is solving. -/
theorem WellFormed.solveInPlace_eq (hd : d.WellFormed) (limit₁ limit₂ : ℕ) :
    InPlace.solveWithin limit₁ limit₂ d = d.solveWithin limit₁ limit₂ := by
  rw [InPlace.solveWithin, solveWithin, hd.phaseOneInPlace_eq]
  refine Traced.bind_congr_of_eq_ok fun verdict hphase => ?_
  obtain ⟨found, ready⟩ := verdict
  have hready := grows_of_phaseOneWithin hd hphase
  dsimp only
  refine ite_congr rfl (fun _ => rfl) fun _ => ?_
  rw [hready.wellFormed.simplexInPlace_eq]
  refine Traced.bind_congr_of_eq_ok fun last hloop => ?_
  obtain ⟨outcome, last⟩ := last
  have hlast := grows_of_simplexWithin hready.wellFormed hloop
  cases outcome with
  | unbounded => rfl
  | optimal =>
      dsimp only
      rw [hlast.wellFormed.assignmentInPlace_eq (Coords.size_zeros _)]
      rfl

/-! ### The dictionary of a program -/

section OfStandardForm

variable {form : StandardForm α} {size k : ℕ}

/-- A cell of the dictionary after so many rows are copied. -/
def copiedCell (form : StandardForm α) (k i j : ℕ) : α :=
  if form.numColumns ≤ i ∧ i < form.numColumns + k ∧ j < form.numColumns then
    form.a.get (i - form.numColumns) j
  else 0

/-- A right-hand side of the dictionary after so many rows are copied. -/
def copiedRhs (form : StandardForm α) (k i : ℕ) : α :=
  if form.numColumns ≤ i ∧ i < form.numColumns + k then form.b.coord (i - form.numColumns) else 0

/-- One more row is copied. -/
lemma copyRowInPlace_eq (hform : form.WellShaped) (hsize : size = form.numColumns + form.numRows)
    (hk : k < form.numRows) :
    InPlace.copyRow form
        (.ofFn size size (copiedCell form k), .tabulate size (copiedRhs form k)) k =
      .ok (.ofFn size size (copiedCell form (k + 1)), .tabulate size (copiedRhs form (k + 1))) := by
  obtain ⟨hwell, hrows, hcols⟩ := hform
  have hcells : (Coords.tabulate form.a.cols (form.a.get k)).size = form.numColumns := by
    rw [Coords.size_tabulate, hcols]
  have hend : (form.numColumns + k + 1) * size ≤ size * size :=
    Nat.mul_le_mul_right _ (by omega)
  have hcopied : (DenseMatrix.ofFn size size (copiedCell form k)).overwriteRow
      (form.numColumns + k) (.tabulate form.a.cols (form.a.get k)) =
      .ok (.ofFn size size (copiedCell form (k + 1))) := by
    rw [DenseMatrix.overwriteRow_ofFn hend (by omega)]
    refine congrArg Except.ok (DenseMatrix.ofFn_congr fun i _ j _ => ?_)
    rw [hcells, Coords.coord_tabulate, hcols]
    grind [copiedCell]
  have hstored : (Coords.tabulate size (copiedRhs form k)).store (form.numColumns + k)
      (form.b.coord k) = .ok (.tabulate size (copiedRhs form (k + 1))) := by
    rw [Coords.store_tabulate (by omega)]
    refine congrArg Except.ok (Coords.tabulate_congr fun i _ => ?_)
    grind [copiedRhs, Function.update_apply]
  have hrhs : form.b.entry k = .ok (form.b.coord k) := Coords.entry_eq_ok hk
  simp only [InPlace.copyRow, DenseMatrix.rowSlice_eq_ok hwell (hrows ▸ hk), ok_bind, hcells,
    beq_self_eq_true, Fault.unless, if_true, hcopied, hrhs, hstored]
  rfl

/-- The rows of a well-shaped program are copied into the rows of its slacks. -/
lemma ofStandardFormInPlace_eq (hform : form.WellShaped) (tolerance : α) :
    InPlace.ofStandardForm form tolerance = .ok (ofStandardForm form tolerance) := by
  let size := form.numColumns + form.numRows
  let state (k : ℕ) : DenseMatrix α × Coords α :=
    (.ofFn size size (copiedCell form k), .tabulate size (copiedRhs form k))
  have hloop : (List.range form.numRows).foldlM (InPlace.copyRow form) (state 0) =
      .ok (state form.numRows) :=
    foldlM_range_eq_ok state fun k hk => copyRowInPlace_eq hform rfl hk
  have hstart : state 0 = (.zeros size size, .zeros size) := by
    have hcell : ∀ i < size, ∀ j < size, copiedCell form 0 i j = 0 :=
      fun i _ j _ => if_neg (by omega)
    have hrhs : ∀ i < size, copiedRhs form 0 i = 0 := fun i _ => if_neg (by omega)
    exact Prod.ext (DenseMatrix.ofFn_congr hcell) (Coords.tabulate_congr hrhs)
  have hend : state form.numRows =
      ((ofStandardForm form tolerance).a, (ofStandardForm form tolerance).b) := by
    have hcell : ∀ i < size, ∀ j < size, copiedCell form form.numRows i j =
        if form.numColumns ≤ i ∧ j < form.numColumns then form.a.get (i - form.numColumns) j
        else 0 := fun i hi j _ => if_congr (by omega) rfl rfl
    have hrhs : ∀ i < size, copiedRhs form form.numRows i =
        if form.numColumns ≤ i then form.b.coord (i - form.numColumns) else 0 :=
      fun i hi => if_congr (by omega) rfl rfl
    exact Prod.ext (DenseMatrix.ofFn_congr hcell) (Coords.tabulate_congr hrhs)
  have hroles : Array.replicate form.numColumns Role.nonbasic ++
      Array.replicate form.numRows Role.basic = (ofStandardForm form tolerance).roles := by
    refine Array.ext (by simp [ofStandardForm]) fun i hi _ => ?_
    simp [ofStandardForm, Array.getElem_append]
  rw [hstart, hend] at hloop
  rw [InPlace.ofStandardForm]
  dsimp only
  rw [hloop, hroles]
  rfl

/-- A run in place finds every index that it asks for and is the run of both phases. -/
theorem runInPlace_eq (hform : form.WellShaped) (tolerance : α) (limit₁ limit₂ : ℕ) :
    InPlace.run form tolerance limit₁ limit₂ =
      (ofStandardForm form tolerance).solveWithin limit₁ limit₂ := by
  rw [InPlace.run, ofStandardFormInPlace_eq hform, Traced.ok_bind]
  exact (wellFormed_ofStandardForm form tolerance).solveInPlace_eq limit₁ limit₂

end OfStandardForm

end Dictionary

end LinProg
