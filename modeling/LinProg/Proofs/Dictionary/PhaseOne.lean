import LinProg.Proofs.Dictionary.Anticycling
import LinProg.Proofs.Dictionary.Auxiliary

/-!
Phase one, over the exact rationals.

* `feasible_entered`: the pivot that makes the auxiliary variable basic leads to a feasible
  dictionary.
* `choice_ne_unbounded`, `Minimizes`: from there on the auxiliary variable can never grow without
  end, and the loop makes it as small as it can be.
* `sum_auxiliary_row`, `exists_expelAuxiliary`: the row of the auxiliary variable always has a
  coefficient of at least one over the number of rows, so that the variable can be made nonbasic
  where the tolerance is below that.
* `of_phaseOneWithin_eq_true`, `of_phaseOneWithin_eq_false`: what the two verdicts say about the
  dictionary that is left.
* `exists_phaseOneWithin`, `Gap`, `feasible_of_phaseOneWithin_eq_true`: phase one gives a verdict,
  and a feasible dictionary where the rows are not missed by less than the tolerance.
-/

namespace LinProg.Dictionary

open Finset

/-! ### Into the feasible region -/

section Enter

variable {d : Dictionary ℚ} {i k : ℕ}

/-- The dictionary in which the auxiliary variable is basic in the place of `k`. -/
def entered (d : Dictionary ℚ) (k : ℕ) : Dictionary ℚ := d.withAuxiliary.exchange d.numVariables k

lemma rewrites_entered (hd : d.WellFormed) (hk : d.isBasic k) :
    Rewrites d.withAuxiliary (d.entered k) :=
  (legalPivot_withAuxiliary hd hk).rewrites hd.withAuxiliary

/-- In the place of the lowest row the auxiliary variable is large enough for every row. -/
theorem feasible_entered (hd : d.WellFormed) (h : d.lowestRow? = some k) :
    (d.entered k).Feasible := by
  obtain ⟨hk, hneg, hle⟩ := of_lowestRow?_eq_some h
  have hlegal := legalPivot_withAuxiliary hd hk
  have hcell : ∀ i, d.isBasic i → d.withAuxiliary.a.get i d.numVariables = -1 := by
    intro i hi
    have hin := isBasic_lt hi
    rw [get_withAuxiliary hd (by omega) (by omega), if_pos ⟨rfl, hi⟩]
  intro i hi
  obtain rfl | ⟨hi, hik⟩ := (isBasic_exchange hlegal.isNonbasic hlegal.isBasic).mp hi
  · rw [entered, coord_b_exchange_entering hlegal.isNonbasic hlegal.isBasic, hcell k hk,
      coord_b_withAuxiliary, div_neg, div_one]
    linarith
  · rw [entered, coord_b_exchange_of_ne hlegal.isNonbasic hi hik, hcell k hk, coord_b_withAuxiliary,
      coord_b_withAuxiliary, hcell i (isBasic_withAuxiliary.mp hi)]
    have := hle i (isBasic_withAuxiliary.mp hi)
    linarith

end Enter

/-! ### While the auxiliary variable is there -/

section Attached

variable {d r : Dictionary ℚ} {x : ℕ → ℚ} {e : ℕ} (h : Rewrites d.withAuxiliary r)
include h

lemma numVariables_attached : r.numVariables = d.numVariables + 1 :=
  h.equivalent.numVariables_eq.trans (numVariables_withAuxiliary d)

lemma auxiliary_lt : d.numVariables < r.numVariables := by
  rw [numVariables_attached h]
  exact Nat.lt_succ_self _

/-- The objective of the basic solution is the negation of the auxiliary variable. -/
lemma constant_attached : r.constant = -r.b.coord d.numVariables := by
  have hx := solves_fill h.wellFormed 0
  have hvalue := h.equivalent.valueAt_eq ((h.equivalent.solves_iff _).mp hx)
  rw [valueAt_fill_zero h.wellFormed, valueAt_withAuxiliary,
    fill_zero h.wellFormed (auxiliary_lt h)] at hvalue
  exact hvalue

/-- The objective is bounded by zero, so that no variable improves it without end. -/
theorem choice_ne_unbounded : r.choice ≠ .unbounded e := by
  intro hchoice
  obtain ⟨henter, hlimit⟩ := choice_eq_unbounded_iff.mp hchoice
  have hcost := h.equivalent.symm.costSum_ray h.wellFormed henter.isNonbasic
  have hvalue := valueAt_withAuxiliary d (r.ray e)
  rw [valueAt, hcost, show d.withAuxiliary.constant = 0 from rfl] at hvalue
  have hpos := henter.cost_pos
  have hray := ray_nonneg hlimit d.numVariables
  linarith

omit h in
/-- The direction in which the basic variables and the auxiliary one all grow by one. -/
def uplift (d : Dictionary ℚ) (j : ℕ) : ℚ := if d.isBasic j ∨ j = d.numVariables then 1 else 0

/-- A solution stays one along that direction: each row gains on both sides. -/
lemma Solves.add_uplift (hd : d.WellFormed) (hx : r.Solves x) : r.Solves (x + d.uplift) := by
  rw [h.equivalent.solves_iff, solves_withAuxiliary_iff hd] at hx ⊢
  intro i hi
  have hsum : d.rowSum i d.uplift = d.rowSum i 0 := by
    refine rowSum_congr hd (isBasic_lt hi) fun j hj => if_neg ?_
    rintro (hb | rfl)
    · exact not_isBasic_of_isNonbasic hj hb
    · exact absurd (isNonbasic_lt hj) (lt_irrefl _)
  have hzero : d.rowSum i 0 = 0 := by simp [rowSum]
  have hself : d.uplift i = 1 := if_pos (.inl hi)
  have haux : d.uplift d.numVariables = 1 := if_pos (.inr rfl)
  rw [rowSum_add, hsum, hzero, Pi.add_apply, Pi.add_apply, hself, haux, hx i hi]
  ring

/-- In the row of the auxiliary variable, the coefficients of the variables that were basic before
it was added sum to minus one. -/
theorem sum_auxiliary_row (hd : d.WellFormed) (hbasic : r.isBasic d.numVariables) :
    ∑ j ∈ d.basis, r.a.get d.numVariables j = -1 := by
  have hx := solves_fill h.wellFormed 0
  have hrow := (hx.add_uplift h hd) d.numVariables hbasic
  have haux : d.uplift d.numVariables = 1 := if_pos (.inr rfl)
  rw [rowSum_add, Pi.add_apply, hx _ hbasic, haux] at hrow
  have hsum : r.rowSum d.numVariables d.uplift = ∑ j ∈ d.basis, r.a.get d.numVariables j := by
    rw [rowSum, numVariables_attached h, sum_range_succ,
      h.wellFormed.get_of_isBasic (isBasic_lt hbasic) hbasic, zero_mul, add_zero, basis, sum_filter]
    refine sum_congr rfl fun j hj => ?_
    have hjn : j ≠ d.numVariables := (mem_range.mp hj).ne
    simp [uplift, hjn]
  rw [← hsum]
  linarith

/-- In the row of the auxiliary variable, one coefficient of the variables that were basic before is
at least one over the number of rows in magnitude. -/
lemma exists_auxiliary_coefficient (hd : d.WellFormed) (hbasic : r.isBasic d.numVariables) :
    ∃ j ∈ d.basis, r.isNonbasic j ∧ 1 / d.numRows ≤ |r.a.get d.numVariables j| := by
  have hsum := sum_auxiliary_row h hd hbasic
  have hne : d.basis.Nonempty := by
    rw [nonempty_iff_ne_empty]
    intro hempty
    simp [hempty] at hsum
  have hrows : (0 : ℚ) < d.numRows := by
    rw [← hd.card_basis]
    exact_mod_cast hne.card_pos
  have hshare : ∑ _j ∈ d.basis, 1 / (d.numRows : ℚ) ≤
      ∑ j ∈ d.basis, |r.a.get d.numVariables j| := by
    calc ∑ _j ∈ d.basis, 1 / (d.numRows : ℚ) = 1 := by
          rw [sum_const, hd.card_basis, nsmul_eq_mul, mul_one_div_cancel hrows.ne']
      _ = |∑ j ∈ d.basis, r.a.get d.numVariables j| := by rw [hsum, abs_neg, abs_one]
      _ ≤ ∑ j ∈ d.basis, |r.a.get d.numVariables j| := abs_sum_le_sum_abs _ _
  obtain ⟨j, hj, hle⟩ := exists_le_of_sum_le hne hshare
  refine ⟨j, hj, ?_, hle⟩
  -- the column of a basic variable is zero
  have hjn : j < r.numVariables := by
    rw [numVariables_attached h]
    exact (isBasic_lt (mem_basis.mp hj)).trans (Nat.lt_succ_self _)
  rw [isNonbasic_iff_not_isBasic hjn]
  intro hb
  rw [h.wellFormed.get_of_isBasic (isBasic_lt hbasic) hb, abs_zero] at hle
  exact absurd (one_div_pos.mpr hrows) (not_lt.mpr hle)

/-- A tolerance below the share of a row finds a coefficient in the auxiliary one. -/
lemma exists_steepest (hd : d.WellFormed) (htm : d.tolerance * d.numRows < 1)
    (hbasic : r.isBasic d.numVariables) : ∃ j, r.steepest? d.numVariables = some j := by
  obtain ⟨j, hj, hn, hle⟩ := exists_auxiliary_coefficient h hd hbasic
  have hrows : (0 : ℚ) < d.numRows := by
    rw [← hd.card_basis]
    exact_mod_cast card_pos.mpr ⟨j, hj⟩
  have hlt : r.tolerance < |r.a.get d.numVariables j| := by
    rw [h.tolerance_eq]
    exact ((lt_div_iff₀ hrows).mpr htm).trans_le hle
  rw [← Option.ne_none_iff_exists']
  intro hnone
  exact absurd hlt (not_lt.mpr (steepest?_eq_none_iff.mp hnone j hn))

end Attached

/-! ### Out of the basis -/

section Expel

variable {d r driven : Dictionary ℚ} (h : Rewrites d.withAuxiliary r)
include h

/-- A basic auxiliary variable makes room for the variable that is picked in its row; else nothing
happens. -/
lemma expelAuxiliary_result :
    r.expelAuxiliary.result =
      match r.isBasic d.numVariables, r.steepest? d.numVariables with
      | true, some j => (r.pivot j d.numVariables).result
      | _, _ => .ok r := by
  rw [expelAuxiliary, numVariables_attached h, Nat.add_sub_cancel]
  cases r.isBasic d.numVariables with
  | false => rfl
  | true => cases r.steepest? d.numVariables <;> rfl

/-- The auxiliary variable is expelled by a legal pivot on its row, if by anything. -/
lemma expelAuxiliary_cases (hout : r.expelAuxiliary.result = .ok driven) :
    driven = r ∨ ∃ j, r.LegalPivot j d.numVariables ∧ driven = r.exchange j d.numVariables := by
  rw [expelAuxiliary_result h] at hout
  split at hout
  · obtain ⟨hlegal, rfl⟩ := pivot_result_eq_ok.mp hout
    exact .inr ⟨_, hlegal, rfl⟩
  · exact .inl (Except.ok.inj hout).symm

lemma rewrites_expelAuxiliary (hout : r.expelAuxiliary.result = .ok driven) :
    Rewrites r driven := by
  obtain rfl | ⟨j, hlegal, rfl⟩ := expelAuxiliary_cases h hout
  · exact .refl h.wellFormed
  · exact hlegal.rewrites h.wellFormed

/-- Where the auxiliary variable is zero, expelling it moves no right-hand side. -/
lemma feasible_expelAuxiliary (hout : r.expelAuxiliary.result = .ok driven) (hf : r.Feasible)
    (hzero : r.b.coord d.numVariables = 0) : driven.Feasible := by
  obtain rfl | ⟨j, hlegal, rfl⟩ := expelAuxiliary_cases h hout
  · exact hf
  · intro i hi
    have hin := isBasic_lt hi
    rw [numVariables_exchange] at hin
    rw [coord_b_exchange_of_degenerate h.wellFormed hlegal.isNonbasic hzero hin]
    exact hf.coord_b_nonneg h.wellFormed hin

/-- Below one over the number of rows, a tolerance always lets a basic auxiliary variable be
expelled by a legal pivot. -/
lemma exists_legalPivot_expelAuxiliary (hd : d.WellFormed) (ht : 0 ≤ d.tolerance)
    (htm : d.tolerance * d.numRows < 1) (hbasic : r.isBasic d.numVariables) :
    ∃ j, r.LegalPivot j d.numVariables ∧
      r.expelAuxiliary.result = .ok (r.exchange j d.numVariables) := by
  obtain ⟨j, hsteep⟩ := exists_steepest h hd htm hbasic
  have hlegal := legalPivot_of_steepest?_eq_some (h.tolerance_eq.symm ▸ ht) hbasic hsteep
  refine ⟨j, hlegal, ?_⟩
  rw [expelAuxiliary_result h, hbasic, hsteep]
  exact pivot_result_eq_ok.mpr ⟨hlegal, rfl⟩

/-- A nonbasic one stays where it is. -/
lemma expelAuxiliary_of_isNonbasic (hn : r.isNonbasic d.numVariables) :
    r.expelAuxiliary.result = .ok r := by
  rw [expelAuxiliary_result h, eq_false_of_ne_true (not_isBasic_of_isNonbasic hn)]

/-- The auxiliary variable can be expelled, and ends up nonbasic. -/
theorem exists_expelAuxiliary (hd : d.WellFormed) (ht : 0 ≤ d.tolerance)
    (htm : d.tolerance * d.numRows < 1) :
    ∃ driven, r.expelAuxiliary.result = .ok driven ∧ driven.isNonbasic d.numVariables := by
  rcases isBasic_or_isNonbasic (auxiliary_lt h) with hbasic | hn
  · obtain ⟨j, hlegal, hout⟩ := exists_legalPivot_expelAuxiliary h hd ht htm hbasic
    exact ⟨_, hout, (isNonbasic_exchange hlegal.isNonbasic hbasic).mpr (.inl rfl)⟩
  · exact ⟨r, expelAuxiliary_of_isNonbasic h hn, hn⟩

variable {ready : Dictionary ℚ}

/-- Dropping the auxiliary variable leads back to a rewriting of the dictionary before. -/
lemma rewrites_withoutAuxiliary (hd : d.WellFormed) (hout : r.withoutAuxiliary d = .ok ready) :
    Rewrites d ready := by
  obtain ⟨hnot, rfl⟩ := withoutAuxiliary_eq_ok_iff.mp hout
  have hnum := numVariables_attached h
  have hlast : r.isNonbasic d.numVariables := by
    rwa [isNonbasic_iff_not_isBasic (auxiliary_lt h)]
  exact ⟨h.wellFormed.restore hnum hlast, equivalent_restore hd h.wellFormed h.equivalent hlast,
    h.numRows_eq, h.numColumns_eq, h.tolerance_eq⟩

omit h in
lemma feasible_withoutAuxiliary (hout : r.withoutAuxiliary d = .ok ready) (hf : r.Feasible) :
    ready.Feasible := by
  obtain ⟨-, rfl⟩ := withoutAuxiliary_eq_ok_iff.mp hout
  intro i hi
  obtain ⟨hi, hin⟩ : r.isBasic i ∧ i < d.numVariables := isBasic_truncate.mp hi
  exact (hf i hi).trans (coord_b_truncate hin).ge

end Expel

/-! ### The end of the loop -/

/-- The dictionary `r` shows the least value that the auxiliary variable can take. -/
structure Minimizes (d r : Dictionary ℚ) : Prop where
  rewrites : Rewrites d.withAuxiliary r
  feasible : r.Feasible
  cost_nonpos : ∀ j, r.isNonbasic j → r.c.coord j ≤ 0

section Loop

variable {d r : Dictionary ℚ} {x : ℕ → ℚ} {k limit : ℕ} {outcome : Outcome}

/-- The loop of phase one ends there, and nowhere else. -/
theorem minimizes_of_simplexWithin_eq_ok (hd : d.WellFormed) (hlow : d.lowestRow? = some k)
    (hloop : ((d.entered k).simplexWithin limit).result = .ok (outcome, r)) : Minimizes d r := by
  obtain ⟨n, -, hstops, rfl⟩ := exists_stopsAfter hloop
  have hentered := rewrites_entered hd (of_lowestRow?_eq_some hlow).1
  have hrewrites := hentered.trans (rewrites_iterate hentered.wellFormed n)
  refine ⟨hrewrites, (feasible_entered hd hlow).iterate n, ?_⟩
  have houtcome := hstops.outcome_eq
  cases outcome with
  | optimal => exact outcome?_eq_optimal_iff.mp houtcome
  | unbounded =>
      obtain ⟨e, hchoice⟩ := outcome?_eq_unbounded_iff.mp houtcome
      exact absurd hchoice (choice_ne_unbounded hrewrites)

/-- The loop of phase one ends within as many pivots as there are sets of as many variables as there
are rows. -/
lemma exists_simplexWithin_entered (hd : d.WellFormed) (hlow : d.lowestRow? = some k)
    (hlimit : (d.numVariables + 1).choose d.numRows ≤ limit) :
    ∃ outcome r, ((d.entered k).simplexWithin limit).result = .ok (outcome, r) := by
  have hentered := rewrites_entered hd (of_lowestRow?_eq_some hlow).1
  obtain ⟨n, hn, outcome, hstops⟩ :=
    (feasible_entered hd hlow).exists_stopsAfter hentered.wellFormed
  rw [numVariables_attached hentered, hentered.numRows_eq, numRows_withAuxiliary] at hn
  exact ⟨outcome, _, hstops.simplexWithin_eq (hn.le.trans hlimit)⟩

/-- The auxiliary variable has its least value. -/
lemma Minimizes.coord_b_le (hmin : Minimizes d r) (hx : ∀ i, 0 ≤ x i)
    (hsolves : d.withAuxiliary.Solves x) : r.b.coord d.numVariables ≤ x d.numVariables := by
  have hle : -x d.numVariables ≤ -r.b.coord d.numVariables := by
    calc -x d.numVariables = d.withAuxiliary.valueAt x := (valueAt_withAuxiliary d x).symm
      _ = r.valueAt x := (hmin.rewrites.equivalent.valueAt_eq hsolves).symm
      _ ≤ r.constant := valueAt_le_constant hmin.rewrites.wellFormed hmin.cost_nonpos hx
      _ = -r.b.coord d.numVariables := constant_attached hmin.rewrites
  exact neg_le_neg_iff.mp hle

lemma Minimizes.coord_b_nonneg (hmin : Minimizes d r) : 0 ≤ r.b.coord d.numVariables :=
  hmin.feasible.coord_b_nonneg hmin.rewrites.wellFormed (auxiliary_lt hmin.rewrites)

/-- The value that the verdict looks at is that of the auxiliary variable. -/
lemma Minimizes.abs_constant (hmin : Minimizes d r) :
    |r.constant| = r.b.coord d.numVariables := by
  rw [constant_attached hmin.rewrites, abs_neg, abs_of_nonneg hmin.coord_b_nonneg]

/-- A solution without the auxiliary variable is one in which it is zero. -/
lemma solves_withAuxiliary_update (hd : d.WellFormed) (hx : d.Solves x) :
    d.withAuxiliary.Solves (Function.update x d.numVariables 0) := by
  rw [solves_withAuxiliary_iff hd, Function.update_self]
  have hsame : d.Solves (Function.update x d.numVariables 0) :=
    (solves_congr fun j hj => Function.update_of_ne hj.ne 0 x).mpr hx
  intro i hi
  rw [add_zero]
  exact hsame i hi

/-- Where there is a nonnegative solution, the least value of the auxiliary variable is zero. -/
lemma Minimizes.coord_b_eq_zero (hd : d.WellFormed) (hmin : Minimizes d r) (hx : ∀ i, 0 ≤ x i)
    (hsolves : d.Solves x) : r.b.coord d.numVariables = 0 := by
  have hnonneg : ∀ i, 0 ≤ Function.update x d.numVariables 0 i := by
    intro i
    rw [Function.update_apply]
    split_ifs
    · exact le_rfl
    · exact hx i
  have hle := hmin.coord_b_le hnonneg (solves_withAuxiliary_update hd hsolves)
  rw [Function.update_self] at hle
  exact le_antisymm hle hmin.coord_b_nonneg

end Loop

/-! ### The verdict -/

/-- How phase one goes on from the dictionary that its loop ends in. -/
inductive Concludes (d r : Dictionary ℚ) : Bool → Dictionary ℚ → Prop where
  | infeasible (h : r.tolerance ≤ |r.constant|) : Concludes d r false r
  | feasible {driven ready : Dictionary ℚ} (h : |r.constant| < r.tolerance)
      (hdriven : r.expelAuxiliary.result = .ok driven)
      (hready : driven.withoutAuxiliary d = .ok ready) : Concludes d r true ready

section Verdict

variable {d r ready left : Dictionary ℚ} {x : ℕ → ℚ} {k limit : ℕ} {found : Bool}
  {outcome : Outcome}

/-- A feasible dictionary passes phase one as it is, and nothing is reported. -/
lemma phaseOneWithin_of_feasible (hf : d.Feasible) (limit : ℕ) :
    d.phaseOneWithin limit = pure (true, d) := by
  rw [phaseOneWithin, lowestRow?_eq_none_iff.mpr hf]

/-- From any other dictionary phase one enters the feasible region, runs the loop and concludes. -/
lemma phaseOneWithin_eq_ok_iff (hd : d.WellFormed) (hlow : d.lowestRow? = some k) :
    (d.phaseOneWithin limit).result = .ok (found, ready) ↔
      ∃ outcome r, ((d.entered k).simplexWithin limit).result = .ok (outcome, r) ∧
        Concludes d r found ready := by
  have hlegal := legalPivot_withAuxiliary hd (of_lowestRow?_eq_some hlow).1
  simp only [phaseOneWithin, hlow, Traced.result_bind_eq_ok, pivot_result_eq_ok, Scalar.abs_eq]
  constructor
  · rintro ⟨_, -, _, ⟨-, rfl⟩, ⟨outcome, r⟩, hloop, hend⟩
    refine ⟨outcome, r, hloop, ?_⟩
    by_cases hreach : r.tolerance ≤ |r.constant|
    · simp only [hreach, if_true, Traced.result_bind_eq_ok, Traced.result_pure, Except.ok.injEq,
        Prod.mk.injEq] at hend
      obtain ⟨_, -, rfl, rfl⟩ := hend
      exact .infeasible hreach
    · simp only [hreach, if_false, Traced.result_bind_eq_ok, Traced.result_pure, Except.ok.injEq,
        Prod.mk.injEq] at hend
      obtain ⟨driven, hdriven, ready, hready, _, -, rfl, rfl⟩ := hend
      exact .feasible (not_le.mp hreach) hdriven hready
  · rintro ⟨outcome, r, hloop, hend⟩
    refine ⟨(), rfl, _, ⟨hlegal, rfl⟩, ⟨outcome, r⟩, hloop, ?_⟩
    cases hend with
    | infeasible hreach =>
        simp only [hreach, if_true, Traced.result_bind_eq_ok]
        exact ⟨(), rfl, rfl⟩
    | feasible hreach hdriven hready =>
        simp only [not_le.mpr hreach, if_false, Traced.result_bind_eq_ok]
        exact ⟨_, hdriven, _, hready, (), rfl, rfl⟩

/-- A verdict stays where the loop may make more pivots. -/
lemma phaseOneWithin_mono {limit' : ℕ} (hd : d.WellFormed) (hlimit : limit ≤ limit')
    (h : (d.phaseOneWithin limit).result = .ok (found, ready)) :
    (d.phaseOneWithin limit').result = .ok (found, ready) := by
  cases hlow : d.lowestRow? with
  | none =>
      have hf : d.Feasible := lowestRow?_eq_none_iff.mp hlow
      rw [phaseOneWithin_of_feasible hf] at h ⊢
      exact h
  | some k =>
      obtain ⟨outcome, r, hloop, hend⟩ := (phaseOneWithin_eq_ok_iff hd hlow).mp h
      exact (phaseOneWithin_eq_ok_iff hd hlow).mpr
        ⟨outcome, r, simplexWithin_mono hlimit hloop, hend⟩

/-- A verdict is that of a feasible dictionary on itself, or follows from the least value of the
auxiliary variable. -/
lemma phaseOneWithin_cases (hd : d.WellFormed)
    (h : (d.phaseOneWithin limit).result = .ok (found, ready)) :
    d.Feasible ∧ found = true ∧ ready = d ∨
      ∃ r, Minimizes d r ∧ Concludes d r found ready := by
  cases hlow : d.lowestRow? with
  | none =>
      have hf : d.Feasible := lowestRow?_eq_none_iff.mp hlow
      rw [phaseOneWithin_of_feasible hf] at h
      obtain ⟨rfl, rfl⟩ : true = found ∧ d = ready := by simpa using h
      exact .inl ⟨hf, rfl, rfl⟩
  | some k =>
      obtain ⟨outcome, r, hloop, hend⟩ := (phaseOneWithin_eq_ok_iff hd hlow).mp h
      exact .inr ⟨r, minimizes_of_simplexWithin_eq_ok hd hlow hloop, hend⟩

/-- Where phase one finds a feasible basic solution, it leaves a rewriting. -/
theorem of_phaseOneWithin_eq_true (hd : d.WellFormed)
    (h : (d.phaseOneWithin limit).result = .ok (true, ready)) : Rewrites d ready := by
  obtain ⟨-, -, rfl⟩ | ⟨r, hmin, hend⟩ := phaseOneWithin_cases hd h
  · exact .refl hd
  · cases hend with
    | feasible hreach hdriven hready =>
        have hrewrites := rewrites_expelAuxiliary hmin.rewrites hdriven
        exact rewrites_withoutAuxiliary (hmin.rewrites.trans hrewrites) hd hready

/-- Where phase one finds none, it leaves a dictionary in which the least value of the auxiliary
variable reaches the tolerance. -/
theorem of_phaseOneWithin_eq_false (hd : d.WellFormed)
    (h : (d.phaseOneWithin limit).result = .ok (false, left)) :
    Minimizes d left ∧ d.tolerance ≤ left.b.coord d.numVariables := by
  obtain ⟨-, hfound, -⟩ | ⟨r, hmin, hend⟩ := phaseOneWithin_cases hd h
  · exact absurd hfound (by simp)
  · cases hend with
    | infeasible hreach =>
        rw [hmin.rewrites.tolerance_eq, hmin.abs_constant] at hreach
        exact ⟨hmin, hreach⟩

/-- In that case there is no nonnegative solution. -/
theorem not_solves_of_phaseOneWithin_eq_false (hd : d.WellFormed) (ht : 0 < d.tolerance)
    (h : (d.phaseOneWithin limit).result = .ok (false, left)) (hx : ∀ i, 0 ≤ x i) :
    ¬ d.Solves x := by
  obtain ⟨hmin, hreach⟩ := of_phaseOneWithin_eq_false hd h
  intro hsolves
  rw [hmin.coord_b_eq_zero hd hx hsolves] at hreach
  exact absurd ht (not_lt.mpr hreach)

/-- The limit that phase one has is beyond the number of its partitions. -/
lemma choose_le_pivotLimit_withAuxiliary (d : Dictionary ℚ) :
    (d.numVariables + 1).choose d.numRows ≤ d.withAuxiliary.pivotLimit := by
  have hlimit := choose_le_pivotLimit d.withAuxiliary
  rwa [numVariables_withAuxiliary, numRows_withAuxiliary] at hlimit

/-- Phase one comes to a verdict, where the tolerance lets the auxiliary variable be expelled. -/
theorem exists_phaseOneWithin (hd : d.WellFormed) (ht : 0 ≤ d.tolerance)
    (htm : d.tolerance * d.numRows < 1)
    (hlimit : (d.numVariables + 1).choose d.numRows ≤ limit) :
    ∃ found ready, (d.phaseOneWithin limit).result = .ok (found, ready) := by
  cases hlow : d.lowestRow? with
  | none =>
      have hf : d.Feasible := lowestRow?_eq_none_iff.mp hlow
      exact ⟨true, d, congrArg Traced.result (phaseOneWithin_of_feasible hf limit)⟩
  | some k =>
      obtain ⟨outcome, r, hloop⟩ := exists_simplexWithin_entered hd hlow hlimit
      have hmin := minimizes_of_simplexWithin_eq_ok hd hlow hloop
      rcases le_or_gt r.tolerance |r.constant| with hreach | hreach
      · exact ⟨false, r, (phaseOneWithin_eq_ok_iff hd hlow).mpr
          ⟨outcome, r, hloop, .infeasible hreach⟩⟩
      · obtain ⟨driven, hdriven, hlast⟩ := exists_expelAuxiliary hmin.rewrites hd ht htm
        have hready : driven.withoutAuxiliary d = .ok (driven.restore d) :=
          withoutAuxiliary_eq_ok_iff.mpr ⟨not_isBasic_of_isNonbasic hlast, rfl⟩
        exact ⟨true, _, (phaseOneWithin_eq_ok_iff hd hlow).mpr
          ⟨outcome, r, hloop, .feasible hreach hdriven hready⟩⟩

/-- Phase one ends within its own limit. -/
lemma exists_phaseOne (hd : d.WellFormed) (ht : 0 ≤ d.tolerance)
    (htm : d.tolerance * d.numRows < 1) :
    ∃ found ready, d.phaseOne.result = .ok (found, ready) :=
  exists_phaseOneWithin hd ht htm (choose_le_pivotLimit_withAuxiliary d)

/-- The dictionary has a nonnegative solution, or every nonnegative point misses a row by at least
the tolerance. -/
def Gap (d : Dictionary ℚ) : Prop :=
  (∃ x, (∀ i, 0 ≤ x i) ∧ d.Solves x) ∨
    ∀ x, (∀ i, 0 ≤ x i) → d.withAuxiliary.Solves x → d.tolerance ≤ x d.numVariables

/-- Where no nonnegative point misses the rows by less than the tolerance, a value of the auxiliary
variable below it is zero. -/
lemma Minimizes.coord_b_eq_zero_of_gap (hd : d.WellFormed) (hmin : Minimizes d r) (hgap : d.Gap)
    (hlt : |r.constant| < r.tolerance) : r.b.coord d.numVariables = 0 := by
  obtain ⟨x, hx, hsolves⟩ | hmiss := hgap
  · exact hmin.coord_b_eq_zero hd hx hsolves
  · have hsolves := (hmin.rewrites.equivalent.solves_iff _).mp
      (solves_fill hmin.rewrites.wellFormed 0)
    have hreach := hmiss _ hmin.feasible.fill_nonneg hsolves
    rw [hmin.abs_constant, hmin.rewrites.tolerance_eq] at hlt
    rw [fill_zero hmin.rewrites.wellFormed (auxiliary_lt hmin.rewrites)] at hreach
    exact absurd hlt (not_lt.mpr hreach)

/-- There the dictionary that phase one leaves is feasible. -/
theorem feasible_of_phaseOneWithin_eq_true (hd : d.WellFormed) (hgap : d.Gap)
    (h : (d.phaseOneWithin limit).result = .ok (true, ready)) : ready.Feasible := by
  obtain ⟨hf, -, rfl⟩ | ⟨r, hmin, hend⟩ := phaseOneWithin_cases hd h
  · exact hf
  · cases hend with
    | feasible hreach hdriven hready =>
        have hzero := hmin.coord_b_eq_zero_of_gap hd hgap hreach
        exact feasible_withoutAuxiliary hready
          (feasible_expelAuxiliary hmin.rewrites hdriven hmin.feasible hzero)

end Verdict

end LinProg.Dictionary
