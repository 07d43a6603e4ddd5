import LinProg.Proofs.Dictionary.Auxiliary
import LinProg.Dictionary.Solve

/-!
The shape of a dictionary through any history of calls, whatever the arithmetic does.

* `Dictionary.Grows`: what a call makes of a dictionary: a dictionary of the right shape for the
  same rows and columns, with so many variables more.
* `grows_of_pivot`, `grows_of_simplexWithin`, `grows_of_phaseOneWithin`, `grows_of_solveWithin`:
  only a phase one that finds no feasible basic solution adds a variable, and it adds one.
* `Solution.Fits`, `Solver.fits_of_solve`: a solution has a value for each column, or no values.
* `Dictionary.History`: the dictionaries that any calls lead to from that of a program, with the
  number of phases one that failed on the way. `History.representation` holds of all of them.
-/

namespace LinProg

variable {α : Type} [Scalar α]

/-- The solution has the parts of its status: a value for each of so many columns where it is
feasible, and no values elsewhere. -/
inductive Solution.Fits (count : ℕ) : Solution α → Prop where
  | feasible {values : Coords α} (h : values.size = count) (objective : α) (pivots : ℕ) :
      Fits count (.feasible values objective pivots)
  | infeasible (pivots : ℕ) : Fits count (.infeasible pivots)
  | unbounded (pivots : ℕ) : Fits count (.unbounded pivots)

namespace Dictionary

variable {d d' d'' : Dictionary α} {e l k m limit : ℕ}

/-! ### One call -/

/-- The dictionary `d'` has the shape of a dictionary, for the rows and columns of `d` and with `k`
variables more. -/
structure Grows (d : Dictionary α) (k : ℕ) (d' : Dictionary α) : Prop where
  wellFormed : d'.WellFormed
  numVariables_eq : d'.numVariables = d.numVariables + k
  numRows_eq : d'.numRows = d.numRows
  numColumns_eq : d'.numColumns = d.numColumns

lemma Grows.refl (hd : d.WellFormed) : Grows d 0 d := ⟨hd, rfl, rfl, rfl⟩

lemma Grows.trans (h : Grows d k d') (h' : Grows d' m d'') : Grows d (k + m) d'' where
  wellFormed := h'.wellFormed
  numVariables_eq := by rw [h'.numVariables_eq, h.numVariables_eq, Nat.add_assoc]
  numRows_eq := h'.numRows_eq.trans h.numRows_eq
  numColumns_eq := h'.numColumns_eq.trans h.numColumns_eq

/-- A pivot that is accepted adds no variable. -/
lemma grows_of_pivot (hd : d.WellFormed) (h : (d.pivot e l).result = .ok d') : Grows d 0 d' := by
  obtain ⟨hlegal, rfl⟩ := pivot_result_eq_ok.mp h
  exact ⟨hd.exchange hlegal.isNonbasic hlegal.isBasic, numVariables_exchange d e l, rfl, rfl⟩

/-- What every chosen pivot keeps, a run of the loop keeps. -/
lemma simplexWithin_induction {P : Dictionary α → Prop} {outcome : Outcome}
    (hstep : ∀ {d d' e l}, P d → d.choice = .pivot e l → (d.pivot e l).result = .ok d' → P d')
    (hd : P d) (h : (d.simplexWithin limit).result = .ok (outcome, d')) : P d' := by
  fun_induction simplexWithin limit d with
  | case1 limit d hchoice =>
      obtain ⟨-, rfl⟩ := Prod.mk.inj (Except.ok.inj h)
      exact hd
  | case2 limit d e hchoice =>
      obtain ⟨-, rfl⟩ := Prod.mk.inj (Except.ok.inj h)
      exact hd
  | case3 d e l hchoice => cases h
  | case4 d e l hchoice limit ih =>
      obtain ⟨next, hpivot, hrest⟩ := Traced.result_bind_eq_ok.mp h
      exact ih next (hstep hd hchoice hpivot) hrest

/-- A run of the loop keeps the shape and adds no variable. -/
lemma grows_of_simplexWithin {outcome : Outcome} (hd : d.WellFormed)
    (h : (d.simplexWithin limit).result = .ok (outcome, d')) : Grows d 0 d' :=
  simplexWithin_induction (P := Grows d 0)
    (fun hgrows _ hpivot => hgrows.trans (grows_of_pivot hgrows.wellFormed hpivot)) (.refl hd) h

/-- The auxiliary variable is one more. -/
lemma grows_withAuxiliary (hd : d.WellFormed) : Grows d 1 d.withAuxiliary :=
  ⟨hd.withAuxiliary, numVariables_withAuxiliary d, rfl, rfl⟩

/-- Making the auxiliary variable nonbasic is a pivot or nothing. -/
lemma grows_of_expelAuxiliary (hd : d.WellFormed) (h : d.expelAuxiliary.result = .ok d') :
    Grows d 0 d' := by
  rw [expelAuxiliary] at h
  split at h
  · split at h
    · obtain ⟨_, -, hpivot⟩ := Traced.result_bind_eq_ok.mp h
      exact grows_of_pivot hd hpivot
    · obtain rfl := Except.ok.inj h
      exact .refl hd
  · obtain rfl := Except.ok.inj h
    exact .refl hd

/-- Dropping the auxiliary variable gives a dictionary of the size before. -/
lemma grows_of_withoutAuxiliary {saved : Dictionary α} (h : Grows saved 1 d)
    (hdrop : d.withoutAuxiliary saved = .ok d') : Grows saved 0 d' := by
  obtain ⟨hlast, rfl⟩ := withoutAuxiliary_eq_ok_iff.mp hdrop
  have hnum := h.numVariables_eq
  have hnonbasic : d.isNonbasic saved.numVariables :=
    (isNonbasic_iff_not_isBasic (hnum ▸ Nat.lt_succ_self _)).mpr hlast
  exact ⟨h.wellFormed.restore hnum hnonbasic, numVariables_restore hnum, h.numRows_eq,
    h.numColumns_eq⟩

/-- Phase one adds no variable where it finds a feasible basic solution, and leaves the auxiliary
variable where it does not. -/
lemma grows_of_phaseOneWithin {found : Bool} (hd : d.WellFormed)
    (h : (d.phaseOneWithin limit).result = .ok (found, d')) :
    Grows d (if found then 0 else 1) d' := by
  rw [phaseOneWithin] at h
  split at h
  · obtain ⟨_, -, h⟩ := Traced.result_bind_eq_ok.mp h
    obtain ⟨entered, hentered, h⟩ := Traced.result_bind_eq_ok.mp h
    obtain ⟨⟨outcome, reached⟩, hloop, h⟩ := Traced.result_bind_eq_ok.mp h
    have hattached := grows_withAuxiliary hd
    have hentered := hattached.trans (grows_of_pivot hattached.wellFormed hentered)
    have hreached := hentered.trans (grows_of_simplexWithin hentered.wellFormed hloop)
    dsimp only at h
    split at h
    · obtain ⟨_, -, h⟩ := Traced.result_bind_eq_ok.mp h
      obtain ⟨rfl, rfl⟩ := Prod.mk.inj (Except.ok.inj h)
      exact hreached
    · obtain ⟨driven, hdriven, h⟩ := Traced.result_bind_eq_ok.mp h
      obtain ⟨restored, hrestored, h⟩ := Traced.result_bind_eq_ok.mp h
      obtain ⟨_, -, h⟩ := Traced.result_bind_eq_ok.mp h
      obtain ⟨rfl, rfl⟩ := Prod.mk.inj (Except.ok.inj h)
      have hdriven := hreached.trans (grows_of_expelAuxiliary hreached.wellFormed hdriven)
      exact grows_of_withoutAuxiliary hdriven hrestored
  · obtain ⟨rfl, rfl⟩ := Prod.mk.inj (Except.ok.inj h)
    exact .refl hd

/-- Solving is phase one and, where that succeeds, a run of the loop. The solution is read off the
dictionary that is left. -/
lemma solveWithin_cases {limit₁ limit₂ : ℕ} {solution : Solution α}
    (h : (d.solveWithin limit₁ limit₂).result = .ok (solution, d')) :
    ((d.phaseOneWithin limit₁).result = .ok (false, d') ∧ solution = .infeasible d'.pivots) ∨
      ∃ ready outcome, (d.phaseOneWithin limit₁).result = .ok (true, ready) ∧
        (ready.simplexWithin limit₂).result = .ok (outcome, d') ∧
        solution = match outcome with
          | .unbounded => .unbounded d'.pivots
          | .optimal => d'.optimum := by
  obtain ⟨⟨found, ready⟩, hphase, h⟩ := Traced.result_bind_eq_ok.mp h
  cases found with
  | false =>
      obtain ⟨rfl, rfl⟩ := Prod.mk.inj (Except.ok.inj h)
      exact .inl ⟨hphase, rfl⟩
  | true =>
      obtain ⟨⟨outcome, last⟩, hloop, h⟩ := Traced.result_bind_eq_ok.mp h
      cases outcome with
      | unbounded =>
          obtain ⟨rfl, rfl⟩ := Prod.mk.inj (Except.ok.inj h)
          exact .inr ⟨ready, .unbounded, hphase, hloop, rfl⟩
      | optimal =>
          obtain ⟨_, -, h⟩ := Traced.result_bind_eq_ok.mp h
          obtain ⟨rfl, rfl⟩ := Prod.mk.inj (Except.ok.inj h)
          exact .inr ⟨ready, .optimal, hphase, hloop, rfl⟩

/-- Only a failure of phase one leaves a variable more. -/
lemma grows_of_solveWithin {limit₁ limit₂ : ℕ} {solution : Solution α} (hd : d.WellFormed)
    (h : (d.solveWithin limit₁ limit₂).result = .ok (solution, d')) :
    Grows d (if solution.status = .infeasible then 1 else 0) d' := by
  obtain ⟨hphase, rfl⟩ | ⟨ready, outcome, hphase, hloop, rfl⟩ := solveWithin_cases h
  · exact grows_of_phaseOneWithin hd hphase
  · have hready := grows_of_phaseOneWithin hd hphase
    have hlast := hready.trans (grows_of_simplexWithin hready.wellFormed hloop)
    cases outcome with
    | unbounded => exact hlast
    | optimal => exact hlast

/-- The basic solution has a value for each column. -/
lemma size_optimum_values (hcolumns : d.numColumns ≤ d.numVariables) :
    (d.basicSolution.extract 0 d.numColumns).size = d.numColumns := by
  rw [Array.size_extract, basicSolution, assignment, Coords.size_tabulate, Nat.sub_zero,
    min_eq_left hcolumns]

/-- A solution that is given has the parts of its status. -/
lemma fits_of_solveWithin {limit₁ limit₂ : ℕ} {solution : Solution α} (hd : d.WellFormed)
    (hcolumns : d.numColumns ≤ d.numVariables)
    (h : (d.solveWithin limit₁ limit₂).result = .ok (solution, d')) :
    solution.Fits d.numColumns := by
  have hgrows := grows_of_solveWithin hd h
  obtain ⟨hphase, rfl⟩ | ⟨ready, outcome, hphase, hloop, rfl⟩ := solveWithin_cases h
  · exact .infeasible _
  · cases outcome with
    | unbounded => exact .unbounded _
    | optimal =>
        have hreached : d'.numColumns ≤ d'.numVariables := by
          rw [hgrows.numColumns_eq, hgrows.numVariables_eq]
          omega
        exact .feasible ((size_optimum_values hreached).trans hgrows.numColumns_eq) _ _

/-- The tolerance is no part of the shape. -/
lemma grows_retuned (hd : d.WellFormed) (tolerance : α) :
    Grows d 0 { d with tolerance := tolerance } where
  wellFormed := { hd with }
  numVariables_eq := rfl
  numRows_eq := rfl
  numColumns_eq := rfl

/-! ### Any number of calls -/

/-- What calls that do not break off can make of the dictionary of a program, and how many of the
phases one among them have failed. The loops may take any number of pivots. -/
inductive History (form : StandardForm α) : ℕ → Dictionary α → Prop where
  | fresh (tolerance : α) : History form 0 (ofStandardForm form tolerance)
  | retune {failed : ℕ} {d : Dictionary α} (h : History form failed d) (tolerance : α) :
      History form failed { d with tolerance := tolerance }
  | pivot {failed e l : ℕ} {d d' : Dictionary α} (h : History form failed d)
      (hpivot : (d.pivot e l).result = .ok d') : History form failed d'
  | simplex {failed limit : ℕ} {d d' : Dictionary α} {outcome : Outcome}
      (h : History form failed d) (hloop : (d.simplexWithin limit).result = .ok (outcome, d')) :
      History form failed d'
  | phaseOne {failed limit : ℕ} {d d' : Dictionary α} {found : Bool} (h : History form failed d)
      (hphase : (d.phaseOneWithin limit).result = .ok (found, d')) :
      History form (failed + if found then 0 else 1) d'
  | solve {failed limit₁ limit₂ : ℕ} {d d' : Dictionary α} {solution : Solution α}
      (h : History form failed d)
      (hsolve : (d.solveWithin limit₁ limit₂).result = .ok (solution, d')) :
      History form (failed + if solution.status = .infeasible then 1 else 0) d'

variable {form : StandardForm α} {failed : ℕ}

/-- Each failure adds one variable to those of the program, and nothing else does. -/
lemma History.exists_grows (h : History form failed d) :
    ∃ tolerance, Grows (ofStandardForm form tolerance) failed d := by
  induction h with
  | fresh tolerance => exact ⟨tolerance, .refl (wellFormed_ofStandardForm form tolerance)⟩
  | retune _ tolerance ih =>
      obtain ⟨first, ih⟩ := ih
      exact ⟨first, ih.trans (grows_retuned ih.wellFormed tolerance)⟩
  | pivot _ hpivot ih =>
      obtain ⟨first, ih⟩ := ih
      exact ⟨first, ih.trans (grows_of_pivot ih.wellFormed hpivot)⟩
  | simplex _ hloop ih =>
      obtain ⟨first, ih⟩ := ih
      exact ⟨first, ih.trans (grows_of_simplexWithin ih.wellFormed hloop)⟩
  | phaseOne _ hphase ih =>
      obtain ⟨first, ih⟩ := ih
      exact ⟨first, ih.trans (grows_of_phaseOneWithin ih.wellFormed hphase)⟩
  | solve _ hsolve ih =>
      obtain ⟨first, ih⟩ := ih
      exact ⟨first, ih.trans (grows_of_solveWithin ih.wellFormed hsolve)⟩

/-- Every dictionary that calls lead to has the shape of a dictionary: all parts have its size, each
row has a basic variable, and all cells that are not used are zero. Its variables are the columns
and the slacks of the program, and an auxiliary one for each phase one that has failed. -/
theorem History.representation (h : History form failed d) :
    d.WellFormed ∧ d.isPartition = true ∧ d.numRows = form.numRows ∧
      d.numColumns = form.numColumns ∧ d.numVariables = d.numRows + d.numColumns + failed := by
  obtain ⟨tolerance, hgrows⟩ := h.exists_grows
  have hrows : d.numRows = form.numRows := hgrows.numRows_eq
  have hcolumns : d.numColumns = form.numColumns := hgrows.numColumns_eq
  refine ⟨hgrows.wellFormed, hgrows.wellFormed.isPartition, hrows, hcolumns, ?_⟩
  rw [hgrows.numVariables_eq, numVariables_ofStandardForm, hrows, hcolumns,
    Nat.add_comm form.numColumns]

/-- A program with a coefficient that is no number, and with no point that satisfies its rows. -/
def blurred : StandardForm Float := ⟨⟨2, 2, #[-1, 0 / 0, 1, 1]⟩, #[-2, 1], #[1, 1], 0⟩

/-- There phase one fails and has spread that coefficient; the shape is kept all the same. -/
theorem History.representation_blurred :
    ∃ left, ((ofStandardForm blurred 0.5).phaseOneWithin 9).result = .ok (false, left) ∧
      (left.a.get 4 1).isNaN = true ∧ History blurred 1 left ∧
      left.WellFormed ∧ left.isPartition = true ∧ left.numVariables = 5 := by
  have hrun : ((ofStandardForm blurred 0.5).phaseOneWithin 9).result.map
      (fun (found, left) => (found, (left.a.get 4 1).isNaN)) = .ok (false, true) := by
    decide +kernel
  cases hphase : ((ofStandardForm blurred 0.5).phaseOneWithin 9).result with
  | error fault =>
      rw [hphase] at hrun
      cases hrun
  | ok result =>
      obtain ⟨found, left⟩ := result
      rw [hphase] at hrun
      obtain ⟨rfl, hnan⟩ := Prod.mk.inj (Except.ok.inj hrun)
      have hhistory : History blurred 1 left := .phaseOne (.fresh 0.5) hphase
      obtain ⟨hwell, hpartition, hrows, hcolumns, hnum⟩ := hhistory.representation
      rw [hrows, hcolumns] at hnum
      exact ⟨left, rfl, hnan, hhistory, hwell, hpartition, hnum⟩

end Dictionary

/-- A solver gives a solution with a value for each column of the program, or with no values. -/
lemma Solver.fits_of_solve {solver : Solver α} {form : StandardForm α} {solution : Solution α}
    (h : (solver.solve form).result = .ok solution) : solution.Fits form.numColumns := by
  obtain ⟨⟨given, last⟩, hsolve, h⟩ := Traced.result_bind_eq_ok.mp h
  obtain rfl := Except.ok.inj h
  refine Dictionary.fits_of_solveWithin (Dictionary.wellFormed_ofStandardForm form _) ?_ hsolve
  rw [Dictionary.numVariables_ofStandardForm]
  exact Nat.le_add_right _ _

end LinProg
