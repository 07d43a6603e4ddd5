import LinProg.Proofs.Dictionary.Certificates

/-!
Phase one decides up to its tolerance whether a canonical program has a feasible point, over the
exact rationals.

* `StandardForm.MissedBy`: every point misses a row by a margin. `StandardForm.missedBy_iff` says
  that no point then keeps to a smaller one.
* `Minimizes.le_of_within`, `Minimizes.within_fill`: the auxiliary variable ends at the least margin
  that some point keeps to.
* `exists_entered_optimal`: the loop ends at an optimum, and nowhere else.
* `eq_false_iff_missedBy`, `of_isFeasible`: what a verdict says about the program.
* `phaseOne_decides`: phase one comes to a verdict, which is right up to the tolerance.
-/

namespace LinProg

open Finset

/-! ### Missed rows -/

namespace StandardForm

variable {form : StandardForm ℚ} {x : ℕ → ℚ} {s t : ℚ}

/-- Every nonnegative point misses a row by at least `t`. -/
def MissedBy (form : StandardForm ℚ) (t : ℚ) : Prop :=
  ∀ x : ℕ → ℚ, (∀ j < form.numColumns, 0 ≤ x j) →
    ∃ i < form.numRows, form.b.coord i + t ≤ form.lhs i x

/-- Finitely many values below `t` are all below a smaller bound. -/
lemma exists_bound_lt {m : ℕ} {f : ℕ → ℚ} (ht : 0 < t) (h : ∀ i < m, f i < t) :
    ∃ s, 0 ≤ s ∧ s < t ∧ ∀ i < m, f i ≤ s := by
  have hne : (insert 0 ((range m).image f)).Nonempty := insert_nonempty _ _
  refine ⟨(insert 0 ((range m).image f)).max' hne, le_max' _ _ (mem_insert_self _ _), ?_, ?_⟩
  · rw [max'_lt_iff]
    intro y hy
    obtain rfl | hy := mem_insert.mp hy
    · exact ht
    · obtain ⟨i, hi, rfl⟩ := mem_image.mp hy
      exact h i (mem_range.mp hi)
  · intro i hi
    exact le_max' _ _ (mem_insert_of_mem (mem_image_of_mem f (mem_range.mpr hi)))

/-- Every point misses a row by `t` where none keeps to a smaller margin. -/
lemma missedBy_iff (ht : 0 < t) :
    form.MissedBy t ↔ ∀ s x, 0 ≤ s → form.Within s x → t ≤ s := by
  constructor
  · intro h s x _ hx
    obtain ⟨i, hi, hmiss⟩ := h x hx.nonneg
    have := hx.lhs_le i hi
    linarith
  · intro h x hx
    by_contra hnone
    push Not at hnone
    -- there are finitely many rows, so that the point keeps to a margin below `t`
    have hbelow : ∀ i < form.numRows, form.lhs i x - form.b.coord i < t := by
      intro i hi
      have := hnone i hi
      linarith
    obtain ⟨s, hs, hst, hle⟩ := exists_bound_lt ht hbelow
    have hwithin : form.Within s x := by
      refine ⟨hx, fun i hi => ?_⟩
      have := hle i hi
      linarith
    exact absurd hst (not_lt.mpr (h s x hs hwithin))

end StandardForm

namespace Dictionary

open StandardForm

/-! ### The least margin -/

section Minimum

variable {form : StandardForm ℚ} {tolerance s : ℚ} {r : Dictionary ℚ} {x : ℕ → ℚ}
  (hmin : Minimizes (ofStandardForm form tolerance) r)
include hmin

/-- No point keeps to a smaller margin than the auxiliary variable ends at. -/
lemma Minimizes.le_of_within (hs : 0 ≤ s) (hx : form.Within s x) :
    r.b.coord (ofStandardForm form tolerance).numVariables ≤ s := by
  have hle := hmin.coord_b_le (hx.point_nonneg hs) (solves_withAuxiliary_point form tolerance x s)
  rwa [numVariables_ofStandardForm, point_beyond le_rfl, ← numVariables_ofStandardForm] at hle

/-- The basic solution keeps to that margin. -/
lemma Minimizes.within_fill :
    form.Within (r.b.coord (ofStandardForm form tolerance).numVariables) (r.fill 0) := by
  have hsolves := (hmin.rewrites.equivalent.solves_iff _).mp
    (solves_fill hmin.rewrites.wellFormed 0)
  rw [← fill_zero hmin.rewrites.wellFormed (auxiliary_lt hmin.rewrites),
    numVariables_ofStandardForm]
  exact within_of_solves hmin.feasible.fill_nonneg hsolves

end Minimum

/-! ### The loop -/

/-- The loop of phase one comes to an optimum, and to nothing else. -/
lemma exists_entered_optimal {d : Dictionary ℚ} {k : ℕ} (hd : d.WellFormed)
    (hlow : d.lowestRow? = some k) :
    ∃ r, (d.entered k).simplex.result = .ok (.optimal, r) ∧
      ∀ limit, (d.numVariables + 1).choose d.numRows ≤ limit →
        ((d.entered k).simplexWithin limit).result = .ok (.optimal, r) := by
  have hentered := rewrites_entered hd (of_lowestRow?_eq_some hlow).1
  obtain ⟨outcome, r, hloop⟩ := exists_simplexWithin_entered hd hlow le_rfl
  have hmin := minimizes_of_simplexWithin_eq_ok hd hlow hloop
  obtain ⟨n, -, hstops, rfl⟩ := exists_stopsAfter hloop
  obtain rfl : outcome = .optimal := by
    have houtcome := outcome?_eq_optimal_iff.mpr hmin.cost_nonpos
    rw [hstops.outcome_eq] at houtcome
    exact Option.some.inj houtcome
  have hlimit := choose_le_pivotLimit (d.entered k)
  rw [numVariables_attached hentered, hentered.numRows_eq, numRows_withAuxiliary] at hlimit
  exact ⟨_, simplexWithin_mono hlimit hloop, fun limit h => simplexWithin_mono h hloop⟩

/-! ### The verdict -/

section Verdict

variable {form : StandardForm ℚ} {tolerance : ℚ} {ready : Dictionary ℚ} {x : ℕ → ℚ} {limit : ℕ}
  {found : Bool}

/-- The dictionary of a program without negative right-hand sides is feasible. -/
lemma feasible_ofStandardForm (h : ∀ i < form.numRows, 0 ≤ form.b.coord i) :
    (ofStandardForm form tolerance).Feasible := by
  intro i hi
  rw [isBasic_ofStandardForm] at hi
  rw [coord_b_ofStandardForm, if_pos hi.1]
  exact h _ (by omega)

/-- Where phase one finds a feasible basic solution, a point keeps to less than the tolerance. -/
lemma exists_within_of_phaseOneWithin_eq_true (ht : 0 < tolerance)
    (h : ((ofStandardForm form tolerance).phaseOneWithin limit).result = .ok (true, ready)) :
    ∃ s x, 0 ≤ s ∧ s < tolerance ∧ form.Within s x := by
  have hd := wellFormed_ofStandardForm form tolerance
  obtain ⟨hf, -, -⟩ | ⟨r, hmin, hend⟩ := phaseOneWithin_cases hd h
  · refine ⟨0, 0, le_rfl, ht, fun _ _ => le_rfl, fun i hi => ?_⟩
    have hb := hf (form.numColumns + i) (isBasic_ofStandardForm.mpr (by omega))
    rw [coord_b_ofStandardForm, if_pos (by omega), Nat.add_sub_cancel_left] at hb
    simpa [lhs] using hb
  · cases hend with
    | feasible hclose _ _ =>
        rw [hmin.rewrites.tolerance_eq, hmin.abs_constant] at hclose
        exact ⟨_, _, hmin.coord_b_nonneg, hclose, hmin.within_fill⟩

/-- Phase one fails exactly where every nonnegative point misses a row by the tolerance. -/
theorem eq_false_iff_missedBy (ht : 0 < tolerance)
    (h : ((ofStandardForm form tolerance).phaseOneWithin limit).result = .ok (found, ready)) :
    found = false ↔ form.MissedBy tolerance := by
  rw [missedBy_iff ht]
  cases found with
  | false =>
      obtain ⟨hmin, hreach⟩ := of_phaseOneWithin_eq_false (wellFormed_ofStandardForm _ _) h
      exact iff_of_true rfl fun s x hs hx => hreach.trans (hmin.le_of_within hs hx)
  | true =>
      obtain ⟨s, x, hs, hlt, hx⟩ := exists_within_of_phaseOneWithin_eq_true ht h
      exact iff_of_false (by simp) fun hall => absurd hlt (not_lt.mpr (hall s x hs hx))

/-- Where there is a feasible point, phase one leaves a feasible dictionary of the same size. -/
lemma of_isFeasible (ht : 0 < tolerance) (hx : form.IsFeasible x)
    (h : ((ofStandardForm form tolerance).phaseOneWithin limit).result = .ok (found, ready)) :
    found = true ∧ Rewrites (ofStandardForm form tolerance) ready ∧ ready.Feasible := by
  have hd := wellFormed_ofStandardForm form tolerance
  have hsolves := solves_point form tolerance x
  obtain rfl : found = true := by
    rw [← Bool.not_eq_false]
    rintro rfl
    exact not_solves_of_phaseOneWithin_eq_false hd ht h hx.point_nonneg hsolves
  have hgap : (ofStandardForm form tolerance).Gap := .inl ⟨_, hx.point_nonneg, hsolves⟩
  exact ⟨rfl, of_phaseOneWithin_eq_true hd h, feasible_of_phaseOneWithin_eq_true hd hgap h⟩

end Verdict

/-! ### The decision -/

/-- Phase one decides whether a program has a feasible point up to its tolerance. Where that is
positive and below one over the number of rows, the phase comes to a verdict, the same one within
any limit beyond the number of partitions. It fails exactly where every nonnegative point misses a
row by at least the tolerance. Where there is a feasible point, it leaves a feasible dictionary over
the variables of the program. Its loop starts from a feasible dictionary and always ends at an
optimum. Without negative right-hand sides it does nothing at all. -/
theorem phaseOne_decides (form : StandardForm ℚ) (tolerance : ℚ) (ht : 0 < tolerance)
    (htm : tolerance * form.numRows < 1) :
    (∃ found ready, (ofStandardForm form tolerance).phaseOne.result = .ok (found, ready) ∧
      (∀ limit, (form.numColumns + form.numRows + 1).choose form.numRows ≤ limit →
        ((ofStandardForm form tolerance).phaseOneWithin limit).result = .ok (found, ready)) ∧
      (found = false ↔ ∀ x : ℕ → ℚ, (∀ j < form.numColumns, 0 ≤ x j) →
        ∃ i < form.numRows, form.b.coord i + tolerance ≤ form.lhs i x) ∧
      ((∃ x, form.IsFeasible x) → found = true ∧
        ready.numVariables = form.numColumns + form.numRows ∧ ready.isPartition ∧
        ready.basics.length = form.numRows ∧ ∀ i, ready.isBasic i → 0 ≤ ready.b.coord i)) ∧
    (∀ k, (ofStandardForm form tolerance).lowestRow? = some k → ∃ entered r,
      ((ofStandardForm form tolerance).withAuxiliary.pivot
        (form.numColumns + form.numRows) k).result = .ok entered ∧ entered.Feasible ∧
      entered.simplex.result = .ok (.optimal, r) ∧
      ∀ limit, (form.numColumns + form.numRows + 1).choose form.numRows ≤ limit →
        (entered.simplexWithin limit).result = .ok (.optimal, r)) ∧
    ((∀ i < form.numRows, 0 ≤ form.b.coord i) →
      (ofStandardForm form tolerance).phaseOne = pure (true, ofStandardForm form tolerance)) := by
  have hd := wellFormed_ofStandardForm form tolerance
  have hsize : (ofStandardForm form tolerance).numVariables = form.numColumns + form.numRows :=
    numVariables_ofStandardForm
  rw [← hsize]
  refine ⟨?_, fun k hlow => ?_, fun hb => ?_⟩
  · obtain ⟨found, ready, hready⟩ := exists_phaseOneWithin hd ht.le htm le_rfl
    refine ⟨found, ready, phaseOneWithin_mono hd (choose_le_pivotLimit_withAuxiliary _) hready,
      fun limit h => phaseOneWithin_mono hd h hready, eq_false_iff_missedBy ht hready, ?_⟩
    rintro ⟨x, hx⟩
    obtain ⟨hfound, hrewrites, hf⟩ := of_isFeasible ht hx hready
    refine ⟨hfound, hrewrites.equivalent.numVariables_eq, hrewrites.wellFormed.isPartition, ?_, hf⟩
    rw [length_basics, hrewrites.wellFormed.card_basis]
    exact hrewrites.numRows_eq
  · have hlegal := legalPivot_withAuxiliary hd (of_lowestRow?_eq_some hlow).1
    obtain ⟨r, hloop, hwithin⟩ := exists_entered_optimal hd hlow
    exact ⟨_, r, pivot_result_eq_ok.mpr ⟨hlegal, rfl⟩, feasible_entered hd hlow, hloop, hwithin⟩
  · exact phaseOneWithin_of_feasible (feasible_ofStandardForm hb) _

/-- A column between one and three is found, one that would have to be at least two and at most one
is not, and one that would have to be a little more than it may be passes within the tolerance. -/
theorem phaseOne_decides_one_column :
    (∃ ready, (ofStandardForm (between 1 3) (1 / 10)).phaseOne.result = .ok (true, ready) ∧
      ready.basics.length = 2 ∧ ∀ i, ready.isBasic i → 0 ≤ ready.b.coord i) ∧
    (∃ left, (ofStandardForm (between 2 1) (1 / 10)).phaseOne.result = .ok (false, left)) ∧
    ∃ ready,
      (ofStandardForm (between (11 / 10) 1) (1 / 10)).phaseOne.result = .ok (true, ready) := by
  have hlow (low high : ℚ) (x : ℕ → ℚ) : (between low high).lhs 0 x = -1 * x 0 :=
    sum_range_one _
  have hhigh (low high : ℚ) (x : ℕ → ℚ) : (between low high).lhs 1 x = 1 * x 0 :=
    sum_range_one _
  refine ⟨?_, ?_, ?_⟩
  · obtain ⟨found, ready, hready, -, -, hfeasible⟩ :=
      (phaseOne_decides (between 1 3) (1 / 10) (by norm_num) (by decide +kernel)).1
    have hinside : (between 1 3).IsFeasible fun _ => 2 := by
      constructor <;> decide +kernel
    obtain ⟨rfl, -, -, hrows, hb⟩ := hfeasible ⟨_, hinside⟩
    exact ⟨ready, hready, hrows, hb⟩
  · obtain ⟨found, left, hleft, -, hfound, -⟩ :=
      (phaseOne_decides (between 2 1) (1 / 10) (by norm_num) (by decide +kernel)).1
    obtain rfl : found = false := by
      refine hfound.mpr fun x _ => ?_
      rcases le_total (x 0) (3 / 2) with hx | hx
      · refine ⟨0, by decide, ?_⟩
        rw [hlow, show (between 2 1).b.coord 0 = -2 from rfl]
        linarith
      · refine ⟨1, by decide, ?_⟩
        rw [hhigh, show (between 2 1).b.coord 1 = 1 from rfl]
        linarith
    exact ⟨left, hleft⟩
  · obtain ⟨found, ready, hready, -, hfound, -⟩ :=
      (phaseOne_decides (between (11 / 10) 1) (1 / 10) (by norm_num) (by decide +kernel)).1
    obtain rfl : found = true := by
      rw [← Bool.not_eq_false, hfound]
      intro hall
      obtain ⟨i, hi, hmiss⟩ := hall (fun _ => 21 / 20) fun _ _ => by norm_num
      have hrows : i < 2 := hi
      interval_cases i
      · rw [hlow, show (between (11 / 10) 1).b.coord 0 = -(11 / 10) from rfl] at hmiss
        norm_num at hmiss
      · rw [hhigh, show (between (11 / 10) 1).b.coord 1 = 1 from rfl] at hmiss
        norm_num at hmiss
    exact ⟨ready, hready⟩

end Dictionary

end LinProg
