import LinProg.Proofs.Dictionary.Feasibility
import LinProg.Proofs.Dictionary.History
import LinProg.Proofs.Solver

/-!
Optimal points that are reported for programs without feasible points, over the exact rationals.

* `Solver.exists_optimum`: an optimal point is read off the dictionary that both phases lead to.
* `Solver.answers_of_isFeasible`: where the program has a feasible point, the answer is right.
* `StandardForm.slanted`: one row that every nonnegative point misses by the same gap at least.
  `slanted_stops`, `solve_slanted`: a tolerance beyond the gap lets phase one pass, and phase two
  then makes the row hold by a column as far below zero as the slope of the row asks for.
* `optimal_points`: what an optimal point says about the program, and how far it may be off.
-/

namespace LinProg

open Finset StandardForm

/-! ### Optimal points of programs with feasible ones -/

namespace Solver

open Dictionary

variable {solver : Solver ℚ} {form : StandardForm ℚ} {s : Solution ℚ}

/-- An optimal point is read off the dictionary that phase one and then the loop lead to. -/
lemma exists_optimum (h : (solver.solve form).result = .ok s) (hs : s.status = .feasible) :
    ∃ ready k limit,
      ((ofStandardForm form solver.tolerance).phaseOneWithin limit).result = .ok (true, ready) ∧
      ready.StopsAfter k .optimal ∧ s = (next^[k] ready).optimum := by
  obtain ⟨⟨given, last⟩, hsolve, hgiven⟩ := Traced.result_bind_eq_ok.mp h
  obtain rfl := Except.ok.inj hgiven
  obtain ⟨-, rfl⟩ | ⟨ready, outcome, hphase, hloop, rfl⟩ := solveWithin_cases hsolve
  · cases hs
  · cases outcome with
    | unbounded => cases hs
    | optimal =>
        obtain ⟨k, -, hstops, rfl⟩ := exists_stopsAfter hloop
        exact ⟨ready, k, _, hphase, hstops, rfl⟩

/-- Where the program has a feasible point, phase two starts from a feasible dictionary, and the
answer is right. -/
lemma answers_of_isFeasible (ht : 0 < solver.tolerance)
    (h : (solver.solve form).result = .ok s) (hs : s.status = .feasible) {x : ℕ → ℚ}
    (hx : form.IsFeasible x) : s.Answers form := by
  obtain ⟨ready, k, limit, hphase, hstops, rfl⟩ := exists_optimum h hs
  obtain ⟨-, hready, hfeasible⟩ := of_isFeasible ht hx hphase
  have hlast := hready.trans (rewrites_iterate hready.wellFormed k)
  exact answers_optimum hlast (hfeasible.iterate k) (outcome?_eq_optimal_iff.mp hstops.outcome_eq)

end Solver

/-! ### A row that is nearly missed -/

/-- The program that makes one column as large as it can be, where a multiple of it is to be at most
the negation of a gap. -/
def StandardForm.slanted (slope gap : ℚ) : StandardForm ℚ :=
  ⟨⟨1, 1, #[slope]⟩, #[-gap], #[1], 0⟩

namespace Dictionary

variable {slope gap tolerance : ℚ} {d : Dictionary ℚ} {x : ℕ → ℚ}

lemma lhs_slanted (slope gap : ℚ) (x : ℕ → ℚ) : (slanted slope gap).lhs 0 x = slope * x 0 :=
  sum_range_one _

lemma solves_slanted :
    (ofStandardForm (slanted slope gap) tolerance).Solves x ↔ x 1 = -gap - slope * x 0 := by
  rw [solves_ofStandardForm_iff, ← lhs_slanted slope gap]
  exact ⟨fun h => h 0 Nat.one_pos, fun h i hi => by
    obtain rfl : i = 0 := Nat.lt_one_iff.mp hi
    exact h⟩

lemma costSum_slanted (x : ℕ → ℚ) :
    (ofStandardForm (slanted slope gap) tolerance).costSum x = x 0 := by
  rw [costSum_ofStandardForm]
  exact (sum_range_one _).trans (one_mul _)

section Rewriting

variable (h : Rewrites (ofStandardForm (slanted slope gap) tolerance) d)
include h

/-- One of the column and the slack is basic, and the other one is not. -/
lemma roles_slanted : d.isBasic 0 ∧ d.isNonbasic 1 ∨ d.isBasic 1 ∧ d.isNonbasic 0 := by
  have hnum : d.numVariables = 2 := h.equivalent.numVariables_eq
  have hcard : d.basis.card = 1 := h.wellFormed.card_basis.trans h.numRows_eq
  obtain ⟨k, hk⟩ := card_eq_one.mp hcard
  have hbasic : ∀ j, d.isBasic j ↔ j = k := fun j => by rw [← mem_basis, hk, mem_singleton]
  have hlt : k < 2 := hnum ▸ isBasic_lt ((hbasic k).mpr rfl)
  have hother : ∀ j < 2, j ≠ k → d.isNonbasic j := fun j hj hne =>
    (isNonbasic_iff_not_isBasic (hnum ▸ hj)).mpr fun hb => hne ((hbasic j).mp hb)
  obtain rfl | rfl : k = 0 ∨ k = 1 := by omega
  · exact .inl ⟨(hbasic 0).mpr rfl, hother 1 Nat.one_lt_two Nat.one_ne_zero⟩
  · exact .inr ⟨(hbasic 1).mpr rfl, hother 0 Nat.two_pos Nat.zero_ne_one⟩

/-- Along the direction of the nonbasic variable the row of the program is kept. -/
lemma slope_mul_ray {e : ℕ} (he : d.isNonbasic e) : slope * d.ray e 0 = -d.ray e 1 := by
  have hbasic : (ofStandardForm (slanted slope gap) tolerance).isBasic (1 + 0) :=
    isBasic_ofStandardForm.mpr ⟨le_rfl, Nat.one_lt_two⟩
  have hray := h.equivalent.symm.rowSum_ray h.wellFormed he hbasic
  rw [← lhs_slanted slope gap, ← hray]
  exact (rowSum_ofStandardForm Nat.one_pos _).symm

variable (hslope : 0 < slope)
include hslope

/-- With the column basic nothing improves, and the column has the value that the row asks for. -/
lemma optimal_slanted (hb : d.isBasic 0) (hn : d.isNonbasic 1) :
    d.choice.outcome? = some .optimal ∧ d.fill 0 0 = -gap / slope := by
  constructor
  · refine outcome?_eq_optimal_iff.mpr fun j hj => ?_
    have hnum : d.numVariables = 2 := h.equivalent.numVariables_eq
    have hlt := isNonbasic_lt hj
    have hne := ne_of_isBasic_of_isNonbasic hb hj
    obtain rfl : j = 1 := by omega
    have hray := slope_mul_ray h hn
    rw [ray_self] at hray
    rw [← h.equivalent.symm.costSum_ray h.wellFormed hn, costSum_slanted]
    by_contra hpos
    have := mul_pos hslope (not_le.mp hpos)
    linarith
  · have hx := solves_slanted.mp ((h.equivalent.solves_iff _).mp (solves_fill h.wellFormed 0))
    rw [fill_of_isNonbasic hn, Pi.zero_apply] at hx
    rw [eq_div_iff hslope.ne']
    linarith

/-- With the slack basic the column takes its place. -/
lemma moves_slanted (hb : d.isBasic 1) (hn : d.isNonbasic 0) :
    d.Moves ∧ d.next.isBasic 0 ∧ d.next.isNonbasic 1 := by
  have hnum : d.numVariables = 2 := h.equivalent.numVariables_eq
  have hcost : d.c.coord 0 = 1 := by
    rw [← h.equivalent.symm.costSum_ray h.wellFormed hn, costSum_slanted, ray_self]
  have hcell : d.a.get 1 0 = slope := by
    have hray := slope_mul_ray h hn
    rwa [ray_self, mul_one, ray_of_isBasic hn hb, neg_neg, eq_comm] at hray
  have henters : ∀ e, d.Enters e → e = 0 := fun e he => by
    have hlt := isNonbasic_lt he.isNonbasic
    have hne := ne_of_isBasic_of_isNonbasic hb he.isNonbasic
    omega
  cases hchoice : d.choice with
  | optimal =>
      have hle := choice_eq_optimal_iff.mp hchoice 0 hn
      rw [hcost] at hle
      exact absurd hle (by norm_num)
  | unbounded e =>
      obtain ⟨he, hlimit⟩ := choice_eq_unbounded_iff.mp hchoice
      have hle := hlimit 1 hb
      rw [henters e he, hcell] at hle
      exact absurd hle (not_le.mpr hslope)
  | pivot e l =>
      obtain ⟨he, -⟩ := of_choice_eq_pivot hchoice
      have hlegal := legalPivot_of_choice_eq hchoice
      obtain rfl := henters e he
      have hlt := isBasic_lt hlegal.isBasic
      have hne := ne_of_isBasic_of_isNonbasic hlegal.isBasic hn
      obtain rfl : l = 1 := by omega
      rw [next_of_choice_eq hchoice]
      exact ⟨⟨0, 1, hchoice⟩, (isBasic_exchange hn hb).mpr (.inl rfl),
        (isNonbasic_exchange hn hb).mpr (.inl rfl)⟩

/-- So the loop stops after at most one pivot, with the column at the value that the row asks
for. -/
theorem slanted_stops :
    ∃ k ≤ 1, d.StopsAfter k .optimal ∧ (next^[k] d).fill 0 0 = -gap / slope := by
  obtain ⟨hb, hn⟩ | ⟨hb, hn⟩ := roles_slanted h
  · obtain ⟨houtcome, hvalue⟩ := optimal_slanted h hslope hb hn
    exact ⟨0, zero_le_one, stopsAfter_zero_iff.mpr houtcome, hvalue⟩
  · obtain ⟨hmoves, hb', hn'⟩ := moves_slanted h hslope hb hn
    have hnext := h.trans (rewrites_next h.wellFormed)
    obtain ⟨houtcome, hvalue⟩ := optimal_slanted hnext hslope hb' hn'
    exact ⟨1, le_rfl, stopsAfter_succ_iff.mpr ⟨hmoves, stopsAfter_zero_iff.mpr houtcome⟩, hvalue⟩

end Rewriting

/-- Phase one passes such a program where the tolerance is beyond the gap. -/
lemma exists_ready_slanted (slope : ℚ) (hgap : gap < tolerance) (ht : 0 < tolerance)
    (htm : tolerance < 1) :
    ∃ ready,
      (ofStandardForm (slanted slope gap) tolerance).phaseOne.result = .ok (true, ready) := by
  have hfresh := wellFormed_ofStandardForm (slanted slope gap) tolerance
  have hrows : tolerance * (ofStandardForm (slanted slope gap) tolerance).numRows < 1 :=
    (mul_one tolerance).trans_lt htm
  obtain ⟨found, ready, hphase⟩ := exists_phaseOne hfresh ht.le hrows
  cases found with
  | true => exact ⟨ready, hphase⟩
  | false =>
      -- at zero the row is missed by the gap only
      obtain ⟨i, hi, hmiss⟩ := (eq_false_iff_missedBy ht hphase).mp rfl 0 fun _ _ => le_rfl
      obtain rfl : i = 0 := Nat.lt_one_iff.mp hi
      rw [lhs_slanted, Pi.zero_apply, mul_zero] at hmiss
      have hrhs : (slanted slope gap).b.coord 0 = -gap := rfl
      linarith

end Dictionary

namespace Solver

open Dictionary

variable {slope gap : ℚ}

/-- For a gap below the tolerance an optimal point is reported, in which the column is as far below
zero as the slope of the row asks for. -/
theorem solve_slanted (solver : Solver ℚ) (hslope : 0 < slope) (hgap : gap < solver.tolerance)
    (ht : 0 < solver.tolerance) (htm : solver.tolerance < 1) :
    ∃ s v, (solver.solve (slanted slope gap)).result = .ok s ∧ s.status = .feasible ∧
      s.values = some v ∧ v.coord 0 = -gap / slope := by
  obtain ⟨ready, hphase⟩ := exists_ready_slanted slope hgap ht htm
  have hready := of_phaseOneWithin_eq_true (wellFormed_ofStandardForm _ _) hphase
  obtain ⟨k, hk, hstops, hvalue⟩ := slanted_stops hready hslope
  have hlast := hready.trans (rewrites_iterate hready.wellFormed k)
  have hlimit : 1 ≤ (ofStandardForm (slanted slope gap) solver.tolerance).pivotLimit :=
    Nat.one_le_two_pow
  have hloop : (ready.simplexWithin
        (ofStandardForm (slanted slope gap) solver.tolerance).pivotLimit).result =
      .ok (.optimal, next^[k] ready) :=
    hstops.simplexWithin_eq (hk.trans hlimit)
  have hsolve : (ofStandardForm (slanted slope gap) solver.tolerance).solve.result =
      .ok ((next^[k] ready).optimum, next^[k] ready) := by
    rw [phaseOne] at hphase
    simp [Dictionary.solve, solveWithin, hphase, hloop, Except.bind]
  refine ⟨_, _, solve_result_eq hsolve, rfl, rfl, ?_⟩
  rw [coord_extract_basicSolution hlast Nat.one_pos, hvalue]

/-- What is true of the optimal points that the solver reports, whatever the program. Some
nonnegative point keeps to a margin below the tolerance, and where the program has a feasible point,
the reported one is feasible and optimal. Where it has none, nothing bounds how far the reported
point is off: for a tolerance below one there are programs of one row and one column with a reported
value below any bound. -/
theorem optimal_points (solver : Solver ℚ) (ht : 0 < solver.tolerance) :
    (∀ form s, (solver.solve form).result = .ok s → s.status = .feasible →
      ∃ v, s.values = some v ∧ v.size = form.numColumns ∧
        (∃ margin x, 0 ≤ margin ∧ margin < solver.tolerance ∧ form.Within margin x) ∧
        ((∃ x, form.IsFeasible x) → form.IsFeasible v.coord ∧
          ∀ x, form.IsFeasible x → form.objectiveAt x ≤ form.objectiveAt v.coord)) ∧
    (solver.tolerance < 1 → ∀ bound : ℚ, ∃ form s v, form.WellShaped ∧ form.numRows = 1 ∧
      form.numColumns = 1 ∧ (solver.solve form).result = .ok s ∧ s.status = .feasible ∧
      s.values = some v ∧ v.coord 0 < bound) := by
  refine ⟨fun form s h hs => ?_, fun htm bound => ?_⟩
  · obtain ⟨ready, k, limit, hphase, hstops, hoptimum⟩ := exists_optimum h hs
    have hready := of_phaseOneWithin_eq_true (wellFormed_ofStandardForm _ _) hphase
    have hlast := hready.trans (rewrites_iterate hready.wellFormed k)
    have hvalues : s.values =
        some ((next^[k] ready).basicSolution.extract 0 (next^[k] ready).numColumns) := by
      rw [hoptimum]
      rfl
    refine ⟨_, hvalues, size_extract_basicSolution hlast,
      exists_within_of_phaseOneWithin_eq_true ht hphase, fun ⟨x, hx⟩ => ?_⟩
    obtain ⟨v, hv, -, hfeasible, -, hbest⟩ := (answers_of_isFeasible ht h hs hx).of_feasible hs
    obtain rfl := Option.some.inj (hvalues.symm.trans hv)
    exact ⟨hfeasible, hbest⟩
  · -- half the tolerance as the gap, over a slope that puts the column below the bound
    set gap := solver.tolerance / 2 with hgap
    have hpos : 0 < gap := half_pos ht
    have hfar : 0 < |bound| + 1 := by positivity
    have hslope : 0 < gap / (|bound| + 1) := div_pos hpos hfar
    have hbelow : gap < solver.tolerance := half_lt_self ht
    obtain ⟨s, v, hs, hstatus, hv, hvalue⟩ := solve_slanted solver hslope hbelow ht htm
    refine ⟨slanted (gap / (|bound| + 1)) gap, s, v, ⟨rfl, rfl, rfl⟩, rfl, rfl, hs, hstatus, hv, ?_⟩
    calc v.coord 0 = -gap / (gap / (|bound| + 1)) := hvalue
      _ = -(|bound| + 1) := by field_simp
      _ < bound := by linarith [neg_abs_le bound]

/-- A column between one and three has an optimal point, and with the same tolerance a column below
minus one hundred is reported for a program of one row. -/
theorem optimal_points_between :
    (between 1 3).IsFeasible (Coords.coord #[3]) ∧
    ∃ form s v, form.numRows = 1 ∧ ((⟨1 / 10⟩ : Solver ℚ).solve form).result = .ok s ∧
      s.status = .feasible ∧ s.values = some v ∧ v.coord 0 < -100 := by
  obtain ⟨hreported, hoff⟩ := optimal_points ⟨1 / 10⟩ (by norm_num)
  refine ⟨?_, ?_⟩
  · have hvalue : ((⟨1 / 10⟩ : Solver ℚ).solve (between 1 3)).result =
        .ok (.feasible #[3] 11 3) := by decide +kernel
    have hinside : (between 1 3).IsFeasible fun _ => 2 := by
      constructor <;> decide +kernel
    obtain ⟨v, hv, -, -, hfeasible⟩ := hreported _ _ hvalue rfl
    obtain rfl := Option.some.inj hv
    exact (hfeasible ⟨_, hinside⟩).1
  · obtain ⟨form, s, v, -, hrows, -, hs, hstatus, hv, hlt⟩ := hoff (by norm_num) (-100)
    exact ⟨form, s, v, hrows, hs, hstatus, hv, hlt⟩

/-- So an optimal point need not keep to the tolerance: a row that every nonnegative point misses by
a sixteenth passes a tolerance of an eighth, and the column is reported as minus sixty-four. -/
theorem optimal_point_off :
    ¬ ∀ (form : StandardForm ℚ) (tolerance : ℚ) (s : Solution ℚ) (v : Coords ℚ),
      form.WellShaped → 0 < tolerance → tolerance * form.numRows < 1 →
      ((⟨tolerance⟩ : Solver ℚ).solve form).result = .ok s → s.status = .feasible →
      s.values = some v →
      (∀ j < form.numColumns, -tolerance ≤ v.coord j) ∧
        ∀ i < form.numRows, form.lhs i v.coord ≤ form.b.coord i + tolerance := by
  intro h
  have hsolve : ((⟨1 / 8⟩ : Solver ℚ).solve (slanted (1 / 1024) (1 / 16))).result =
      .ok (.feasible #[-64] (-64) 3) := by decide +kernel
  obtain ⟨hcolumns, -⟩ := h (slanted (1 / 1024) (1 / 16)) (1 / 8) _ #[-64] ⟨rfl, rfl, rfl⟩
    (by norm_num) (by decide +kernel) hsolve rfl rfl
  exact absurd (hcolumns 0 (by decide)) (by decide +kernel)

end Solver

end LinProg
