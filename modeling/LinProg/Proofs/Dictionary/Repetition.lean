import LinProg.Proofs.Dictionary.Feasibility
import LinProg.Proofs.Dictionary.History
import LinProg.Proofs.Solver

/-!
Phase one and the solution of a dictionary, asked for again and again, over the exact rationals.

* `Dictionary.Calls`: what a dictionary becomes by calls of `phaseOne` and `solve`.
* `Dictionary.Settles`: both calls find a feasible basic solution, and the loop ends at the same
  dictionary. `Calls.settles` says that they go on to do so.
* `exists_settles`, `Minimizes.settles`: this is so from the dictionary of a program with a feasible
  point, and from the dictionary that a failed phase one leaves.
* `repeated_calls`: hence the first answer of a feasible program stays, and that of a missed one
  does not.
-/

namespace LinProg.Dictionary

open StandardForm

/-! ### Calls -/

/-- The dictionary `d₀` becomes another one by any calls of phase one and of the solution, which
each start from the dictionary that the one before has left. -/
inductive Calls (d₀ : Dictionary ℚ) : Dictionary ℚ → Prop where
  | none : Calls d₀ d₀
  | phaseOne {d d' : Dictionary ℚ} {found : Bool} (h : Calls d₀ d)
      (hcall : d.phaseOne.result = .ok (found, d')) : Calls d₀ d'
  | solve {d d' : Dictionary ℚ} {s : Solution ℚ} (h : Calls d₀ d)
      (hcall : d.solve.result = .ok (s, d')) : Calls d₀ d'

variable {form : StandardForm ℚ} {tolerance : ℚ} {d d' d₀ ready last left : Dictionary ℚ}
  {outcome : Outcome} {found : Bool} {s : Solution ℚ}

/-- Phase one succeeds, and the loop from there ends in `last`. -/
def Settles (d last : Dictionary ℚ) (outcome : Outcome) : Prop :=
  ∃ ready k, d.phaseOne.result = .ok (true, ready) ∧ Rewrites d ready ∧ ready.Feasible ∧
    ready.StopsAfter k outcome ∧ next^[k] ready = last

/-- From a feasible dictionary there is nothing to do in phase one. -/
lemma Feasible.settles (hd : d.WellFormed) (hf : d.Feasible) {k : ℕ}
    (hstops : d.StopsAfter k outcome) : d.Settles (Dictionary.next^[k] d) outcome :=
  ⟨d, k, congrArg Traced.result (phaseOneWithin_of_feasible hf _), .refl hd, hf, hstops, rfl⟩

/-- A loop that stops does so within its limit. -/
lemma Feasible.simplex_eq (hd : d.WellFormed) (hf : d.Feasible) {k : ℕ}
    (hstops : d.StopsAfter k outcome) : d.simplex.result = .ok (outcome, Dictionary.next^[k] d) :=
  hstops.simplexWithin_eq
    ((lt_choose_of_moves hd hf hstops.moves).le.trans (choose_le_pivotLimit d))

namespace Settles

variable (h : d.Settles last outcome)
include h

/-- The solution is read off the dictionary in which the loop ends. -/
lemma solve_eq : d.solve.result = .ok (last.verdict outcome, last) := by
  obtain ⟨ready, k, hphase, hrewrites, hf, hstops, rfl⟩ := h
  have hloop := hf.simplex_eq hrewrites.wellFormed hstops
  have hlimit : ready.pivotLimit = d.pivotLimit := by
    rw [pivotLimit, pivotLimit, hrewrites.equivalent.numVariables_eq]
  rw [simplex, hlimit] at hloop
  exact solveWithin_of_phaseOneWithin hphase hloop

/-- Phase one succeeds and leaves a dictionary of the same kind. -/
lemma of_phaseOne (hcall : d.phaseOne.result = .ok (found, d')) :
    found = true ∧ d'.Settles last outcome := by
  obtain ⟨ready, k, hphase, hrewrites, hf, hstops, rfl⟩ := h
  obtain ⟨rfl, rfl⟩ : true = found ∧ ready = d' := by
    simpa using Except.ok.inj (hphase.symm.trans hcall)
  exact ⟨rfl, hf.settles hrewrites.wellFormed hstops⟩

/-- A solution leaves a dictionary of the same kind: the loop has nothing to do where it has
ended. -/
lemma of_solve (hcall : d.solve.result = .ok (s, d')) : d'.Settles last outcome := by
  obtain rfl : last = d' := (Prod.mk.inj (Except.ok.inj (h.solve_eq.symm.trans hcall))).2
  obtain ⟨ready, k, -, hrewrites, hf, hstops, rfl⟩ := h
  exact (hf.iterate k).settles (hrewrites.wellFormed.iterate k)
    (stopsAfter_zero_iff.mpr hstops.outcome_eq)

end Settles

/-- No call leads away from the dictionary in which the loop ends. -/
lemma Calls.settles (h : d₀.Settles last outcome) (hcalls : d₀.Calls d) :
    d.Settles last outcome := by
  induction hcalls with
  | none => exact h
  | phaseOne _ hcall ih => exact (ih.of_phaseOne hcall).2
  | solve _ hcall ih => exact ih.of_solve hcall

/-! ### Programs with a feasible point -/

/-- Both phases settle from the dictionary of a program with a feasible point. -/
lemma exists_settles (ht : 0 < tolerance) (htm : tolerance * form.numRows < 1)
    (hx : ∃ x, form.IsFeasible x) :
    ∃ last outcome, (ofStandardForm form tolerance).Settles last outcome ∧
      (last.verdict outcome).Answers form ∧ (last.verdict outcome).status ≠ .infeasible := by
  obtain ⟨x, hx⟩ := hx
  obtain ⟨found, ready, hphase⟩ :=
    exists_phaseOne (wellFormed_ofStandardForm form tolerance) ht.le htm
  obtain ⟨rfl, hrewrites, hf⟩ := of_isFeasible ht hx hphase
  obtain ⟨k, -, outcome, hstops⟩ := hf.exists_stopsAfter hrewrites.wellFormed
  exact ⟨_, outcome, ⟨ready, k, hphase, hrewrites, hf, hstops, rfl⟩,
    answers_verdict (hrewrites.trans (rewrites_iterate hrewrites.wellFormed k)) (hf.iterate k)
      hstops.outcome_eq⟩

/-! ### Programs that are missed -/

/-- What a failed phase one leaves is optimal for the auxiliary variable, and every further call
takes that for the program. -/
lemma Minimizes.settles (hmin : Minimizes d left) : left.Settles left .optimal :=
  hmin.feasible.settles hmin.rewrites.wellFormed
    (stopsAfter_zero_iff.mpr (outcome?_eq_optimal_iff.mpr hmin.cost_nonpos))

lemma Minimizes.phaseOne_eq (hmin : Minimizes d left) :
    left.phaseOne.result = .ok (true, left) :=
  congrArg Traced.result (phaseOneWithin_of_feasible hmin.feasible _)

/-- A failed phase one is all that the solution does. -/
lemma solve_of_phaseOne_eq_false (h : d.phaseOne.result = .ok (false, left)) :
    d.solve.result = .ok (.infeasible left.pivots, left) :=
  solveWithin_of_phaseOneWithin_false h _

/-- After a failed phase one, calls stay where it has ended. -/
lemma Calls.eq_or_eq (h : d₀.phaseOne.result = .ok (false, left)) (hmin : Minimizes d₀ left)
    (hcalls : d₀.Calls d) : d = d₀ ∨ d = left := by
  induction hcalls with
  | none => exact .inl rfl
  | phaseOne _ hcall ih =>
      refine .inr ?_
      obtain rfl | rfl := ih
      · exact (Prod.mk.inj (Except.ok.inj (hcall.symm.trans h))).2
      · exact (Prod.mk.inj (Except.ok.inj (hcall.symm.trans hmin.phaseOne_eq))).2
  | solve _ hcall ih =>
      refine .inr ?_
      obtain rfl | rfl := ih
      · exact (Prod.mk.inj (Except.ok.inj (hcall.symm.trans (solve_of_phaseOne_eq_false h)))).2
      · exact (Prod.mk.inj (Except.ok.inj (hcall.symm.trans hmin.settles.solve_eq))).2

section Missed

variable (hmin : Minimizes (ofStandardForm form tolerance) left)
include hmin

lemma Minimizes.numColumns_le : left.numColumns ≤ left.numVariables := by
  have hcolumns : left.numColumns = form.numColumns := hmin.rewrites.numColumns_eq
  rw [hcolumns, numVariables_attached hmin.rewrites, numVariables_ofStandardForm, add_assoc]
  exact Nat.le_add_right _ _

/-- The columns of its basic solution miss no row by more than the least margin. -/
lemma Minimizes.within_values :
    form.Within (left.b.coord (ofStandardForm form tolerance).numVariables)
      (Coords.coord (left.basicSolution.extract 0 left.numColumns)) := by
  have hcolumns : left.numColumns = form.numColumns := hmin.rewrites.numColumns_eq
  have hsame : ∀ j < form.numColumns,
      Coords.coord (left.basicSolution.extract 0 left.numColumns) j = left.fill 0 j := fun j hj =>
    coord_optimum_values hmin.rewrites.wellFormed hmin.numColumns_le (hcolumns ▸ hj)
  refine ⟨fun j hj => ?_, fun i hi => ?_⟩
  · rw [hsame j hj]
    exact hmin.within_fill.nonneg j hj
  · rw [lhs_congr hsame]
    exact hmin.within_fill.lhs_le i hi

lemma Minimizes.size_values :
    (left.basicSolution.extract 0 left.numColumns).size = form.numColumns := by
  rw [size_optimum_values hmin.numColumns_le]
  exact hmin.rewrites.numColumns_eq

end Missed

/-! ### Any number of calls -/

/-- What calls of phase one and of the solution answer, however many come one after the other. Where
the program has a feasible point, each of them answers what the first one does, and that is right.
Where every point misses a row by the tolerance, only the first one says so. It leaves the
dictionary with the auxiliary variable and its objective, where all further calls stay. There phase
one succeeds, and the solution is called feasible, with the negation of the least margin by which
the points miss the rows as its objective and the columns of such a point as its values. -/
theorem repeated_calls (form : StandardForm ℚ) (tolerance : ℚ) (ht : 0 < tolerance)
    (htm : tolerance * form.numRows < 1) :
    ((∃ x, form.IsFeasible x) → ∃ s last, s.Answers form ∧ s.status ≠ .infeasible ∧
      ∀ d, (ofStandardForm form tolerance).Calls d →
        d.solve.result = .ok (s, last) ∧ ∃ ready, d.phaseOne.result = .ok (true, ready)) ∧
    ((∀ x : ℕ → ℚ, (∀ j < form.numColumns, 0 ≤ x j) →
        ∃ i < form.numRows, form.b.coord i + tolerance ≤ form.lhs i x) →
      ∃ left v margin,
        (ofStandardForm form tolerance).phaseOne.result = .ok (false, left) ∧
        (ofStandardForm form tolerance).solve.result = .ok (.infeasible left.pivots, left) ∧
        (∀ d, (ofStandardForm form tolerance).Calls d →
          d = ofStandardForm form tolerance ∨ d = left) ∧
        left.phaseOne.result = .ok (true, left) ∧
        left.solve.result = .ok (.feasible v (-margin) left.pivots, left) ∧
        tolerance ≤ margin ∧ v.size = form.numColumns ∧ form.Within margin v.coord ∧
        ∀ s x, 0 ≤ s → form.Within s x → margin ≤ s) := by
  refine ⟨fun hx => ?_, fun hmissed => ?_⟩
  · obtain ⟨last, outcome, hsettles, hanswers, hstatus⟩ := exists_settles ht htm hx
    refine ⟨_, last, hanswers, hstatus, fun d hcalls => ?_⟩
    have hd := hcalls.settles hsettles
    have hsolve := hd.solve_eq
    obtain ⟨ready, -, hphase, -⟩ := hd
    exact ⟨hsolve, ready, hphase⟩
  · have hfresh := wellFormed_ofStandardForm form tolerance
    obtain ⟨found, left, hphase⟩ := exists_phaseOne hfresh ht.le htm
    obtain rfl : found = false := (eq_false_iff_missedBy ht hphase).mpr hmissed
    obtain ⟨hmin, hreach⟩ := of_phaseOneWithin_eq_false hfresh hphase
    refine ⟨left, _, _, hphase, solve_of_phaseOne_eq_false hphase,
      fun d => Calls.eq_or_eq hphase hmin, hmin.phaseOne_eq, ?_, hreach, hmin.size_values,
      hmin.within_values, fun s x => hmin.le_of_within⟩
    rw [← constant_attached hmin.rewrites]
    exact hmin.settles.solve_eq

/-- A column that would have to be more than twice a margin larger than it may be misses a row by
the margin. -/
lemma missedBy_between {low high t : ℚ} (h : high + 2 * t ≤ low) :
    (between low high).MissedBy t := by
  intro x _
  have hlow : (between low high).lhs 0 x = -1 * x 0 := Finset.sum_range_one _
  have hhigh : (between low high).lhs 1 x = 1 * x 0 := Finset.sum_range_one _
  rcases le_total (x 0) (low - t) with hx | hx
  · refine ⟨0, Nat.two_pos, ?_⟩
    rw [hlow, show (between low high).b.coord 0 = -low from rfl]
    linarith
  · refine ⟨1, Nat.one_lt_two, ?_⟩
    rw [hhigh, show (between low high).b.coord 1 = high from rfl]
    linarith

/-- A column between one and three and one that is at least one have the same answer twice, and one
that would have to be at least two and at most one has a point on the second try. -/
theorem repeated_calls_one_column :
    (∃ s last, (ofStandardForm (between 1 3) (1 / 10)).solve.result = .ok (s, last) ∧
      last.solve.result = .ok (s, last) ∧ s.Answers (between 1 3)) ∧
    (∃ s last, (ofStandardForm (above 1) (1 / 10)).solve.result = .ok (s, last) ∧
      last.solve.result = .ok (s, last) ∧ s.Answers (above 1)) ∧
    ∃ left v margin,
      (ofStandardForm (between 2 1) (1 / 10)).solve.result = .ok (.infeasible 2, left) ∧
      left.solve.result = .ok (.feasible v (-margin) 2, left) ∧ 1 / 10 ≤ margin := by
  have htwice (form : StandardForm ℚ) (htm : 1 / 10 * (form.numRows : ℚ) < 1)
      (hx : form.IsFeasible fun _ => 2) :
      ∃ s last, (ofStandardForm form (1 / 10)).solve.result = .ok (s, last) ∧
        last.solve.result = .ok (s, last) ∧ s.Answers form := by
    obtain ⟨s, last, hanswers, -, hcalls⟩ :=
      (repeated_calls form (1 / 10) (by norm_num) htm).1 ⟨_, hx⟩
    have hsolve := (hcalls _ .none).1
    exact ⟨s, last, hsolve, (hcalls last (.solve .none hsolve)).1, hanswers⟩
  refine ⟨htwice _ (by decide +kernel) ?_, htwice _ (by decide +kernel) ?_, ?_⟩
  · constructor <;> decide +kernel
  · constructor <;> decide +kernel
  · obtain ⟨left, v, margin, -, hsolve, -, -, hagain, hreach, -⟩ :=
      (repeated_calls (between 2 1) (1 / 10) (by norm_num) (by decide +kernel)).2
        (missedBy_between (by norm_num))
    have hpivots : (ofStandardForm (between 2 1) (1 / 10)).solve.result.map (·.1.pivots) =
        .ok 2 := by decide +kernel
    rw [hsolve] at hpivots
    have htwo : left.pivots = 2 := Except.ok.inj hpivots
    rw [htwo] at hsolve hagain
    exact ⟨left, v, margin, hsolve, hagain, hreach⟩

/-- Asking again can turn the answer: a column that would have to be at least two and at most one
has no point, and then a feasible one. -/
theorem answer_turns :
    ¬ ∀ (form : StandardForm ℚ) (tolerance : ℚ), form.WellShaped → 0 < tolerance →
      tolerance * form.numRows < 1 → form.Gap tolerance →
      (∀ s d s' d', (ofStandardForm form tolerance).solve.result = .ok (s, d) →
        d.solve.result = .ok (s', d') →
        s'.status = s.status ∧ s'.values = s.values ∧ s'.objective = s.objective) ∧
      ∀ s d found ready s' d', (ofStandardForm form tolerance).solve.result = .ok (s, d) →
        (ofStandardForm form tolerance).phaseOne.result = .ok (found, ready) →
        ready.solve.result = .ok (s', d') →
        s'.status = s.status ∧ s'.values = s.values ∧ s'.objective = s.objective := by
  intro h
  have hturn : ((ofStandardForm (between 2 1) (1 / 10)).solve.result.bind fun first =>
      first.2.solve.result.bind fun again => .ok (first.1.status, again.1.status)) =
        .ok (.infeasible, .feasible) := by decide +kernel
  obtain ⟨⟨s, d⟩, hsolve, hturn⟩ := bind_eq_ok.mp hturn
  obtain ⟨⟨s', d'⟩, hagain, hturn⟩ := bind_eq_ok.mp hturn
  obtain ⟨hfirst, hsecond⟩ := Prod.mk.inj (Except.ok.inj hturn)
  obtain ⟨hsame, -⟩ := (h (between 2 1) (1 / 10) ⟨rfl, rfl, rfl⟩ (by norm_num)
    (by decide +kernel) (.inr (missedBy_between (by norm_num)))).1 s d s' d' hsolve hagain
  rw [hfirst, hsecond] at hsame
  cases hsame

end LinProg.Dictionary
