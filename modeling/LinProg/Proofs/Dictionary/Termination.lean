import LinProg.Proofs.Dictionary.PhaseOne
import LinProg.Proofs.StandardForm.Points

/-!
The pivoting loop ends from every feasible dictionary of a program, over the exact rationals.

* `Reachable`: the dictionaries that come from that of a program by accepted pivots of any kind, by
  adding the auxiliary variable and by phase one.
* `Reachable.simplex_terminates`: from such a dictionary, where it is feasible, the loop ends after
  fewer pivots than there are sets of as many variables as there are rows, and no set of basic
  variables returns on the way.
* `simplex_ascends`: on the way every basic solution is feasible, and the objective gains
  what the entering variable earns, which is nothing only where the leaving variable is zero.
-/

namespace LinProg.Dictionary

/-- What can become of the dictionary of a program. -/
inductive Reachable (form : StandardForm ℚ) (tolerance : ℚ) : Dictionary ℚ → Prop where
  | fresh : Reachable form tolerance (ofStandardForm form tolerance)
  | pivot {d d' : Dictionary ℚ} {e l : ℕ} (h : Reachable form tolerance d)
      (hpivot : (d.pivot e l).result = .ok d') : Reachable form tolerance d'
  | attach {d : Dictionary ℚ} (h : Reachable form tolerance d) :
      Reachable form tolerance d.withAuxiliary
  | phaseOne {d d' : Dictionary ℚ} {limit : ℕ} {found : Bool} (h : Reachable form tolerance d)
      (hphase : (d.phaseOneWithin limit).result = .ok (found, d')) : Reachable form tolerance d'

variable {form : StandardForm ℚ} {tolerance : ℚ} {d : Dictionary ℚ}

/-- All of them have the shape of a dictionary. -/
theorem Reachable.wellFormed (h : Reachable form tolerance d) : d.WellFormed := by
  induction h with
  | fresh => exact wellFormed_ofStandardForm form tolerance
  | pivot _ hpivot ih =>
      obtain ⟨hlegal, rfl⟩ := pivot_result_eq_ok.mp hpivot
      exact ih.exchange hlegal.isNonbasic hlegal.isBasic
  | attach _ ih => exact ih.withAuxiliary
  | @phaseOne _ _ _ found _ hphase ih =>
      cases found with
      | true => exact (of_phaseOneWithin_eq_true ih hphase).wellFormed
      | false => exact (of_phaseOneWithin_eq_false ih hphase).1.rewrites.wellFormed

/-- What the loop gives within any limit, where it stops after `k` pivots. -/
lemma StopsAfter.simplexWithin_result {k : ℕ} {outcome : Outcome} (h : d.StopsAfter k outcome)
    (limit : ℕ) :
    (d.simplexWithin limit).result =
      if k ≤ limit then .ok (outcome, next^[k] d) else .error .pivotLimit := by
  split_ifs with hk
  · exact h.simplexWithin_eq hk
  · exact simplexWithin_eq_error fun n hn => h.moves n (hn.trans_lt (not_le.mp hk))

/-- Up to there each step is the pivot that is chosen. -/
lemma StopsAfter.exists_pivot {k : ℕ} {outcome : Outcome} (h : d.StopsAfter k outcome) (n : ℕ)
    (hn : n < k) :
    ∃ e l, (next^[n] d).choice = .pivot e l ∧
      ((next^[n] d).pivot e l).result = .ok (next^[n + 1] d) := by
  obtain ⟨e, l, hchoice⟩ := h.moves n hn
  refine ⟨e, l, hchoice, ?_⟩
  rw [Function.iterate_succ_apply']
  exact pivot_result_of_choice_eq hchoice

/-- The rule of the smallest index prevents cycling. From every feasible dictionary of a program the
loop ends, with one pivot at each step up to there; the sets of basic variables that it visits
differ from each other, and so it makes fewer pivots than there are such sets. -/
theorem Reachable.simplex_terminates (h : Reachable form tolerance d) (hf : d.Feasible) :
    ∃ k outcome,
      k ≤ d.numVariables.choose d.numRows - 1 ∧
      d.simplex.result = .ok (outcome, next^[k] d) ∧
      (∀ limit, (d.simplexWithin limit).result =
        if k ≤ limit then .ok (outcome, next^[k] d) else .error .pivotLimit) ∧
      (∀ n < k, ∃ e l, (next^[n] d).choice = .pivot e l ∧
        ((next^[n] d).pivot e l).result = .ok (next^[n + 1] d)) ∧
      (next^[k] d).pivots = d.pivots + k ∧
      ∀ m ≤ k, ∀ n ≤ k, (next^[m] d).basis = (next^[n] d).basis → m = n := by
  have hd := h.wellFormed
  obtain ⟨k, hk, outcome, hstops⟩ := hf.exists_stopsAfter hd
  refine ⟨k, outcome, Nat.le_sub_one_of_lt hk, ?_, hstops.simplexWithin_result,
    hstops.exists_pivot, pivots_iterate hstops.moves, ?_⟩
  · exact hstops.simplexWithin_eq (hk.le.trans d.choose_le_pivotLimit)
  · intro m hm n hn heq
    exact injOn_basis hd hf hstops.moves hm hn heq

/-- A program on which the rule of the greatest cost pivots without end. -/
def beale : StandardForm ℚ where
  a := ⟨3, 4, #[1 / 4, -8, -1, 9, 1 / 2, -12, -1 / 2, 3, 0, 0, 1, 0]⟩
  b := #[0, 0, 1]
  c := #[3 / 4, -20, 1 / 2, -6]
  constant := 0

/-- The rule of the smallest index ends there. -/
theorem simplex_terminates_beale :
    Reachable beale (1 / 10) (ofStandardForm beale (1 / 10)) ∧
    (ofStandardForm beale (1 / 10)).Feasible ∧
    ∃ k outcome, k ≤ 34 ∧
      (ofStandardForm beale (1 / 10)).simplex.result =
        .ok (outcome, next^[k] (ofStandardForm beale (1 / 10))) := by
  have hfeasible : (ofStandardForm beale (1 / 10)).Feasible := by decide +kernel
  obtain ⟨k, outcome, hk, hsimplex, -⟩ := Reachable.fresh.simplex_terminates hfeasible
  exact ⟨.fresh, hfeasible, k, outcome, hk, hsimplex⟩

/-! ### The way up -/

/-- The chosen pivot keeps the basic solution of a feasible dictionary feasible and adds to the
objective what the entering variable earns up to its least ratio. That is nothing only where the
leaving variable is zero. Hence all basic solutions that the loop comes to are nonnegative solutions
of the dictionary it starts from, and the objective never falls. -/
theorem simplex_ascends (hd : d.WellFormed) (hf : d.Feasible) :
    (∀ e l, d.choice = .pivot e l → ∃ d', (d.pivot e l).result = .ok d' ∧
      d'.WellFormed ∧ d'.Feasible ∧
      d'.constant = d.constant + d.c.coord e * (d.b.coord l / d.a.get l e) ∧
      0 ≤ d.c.coord e * (d.b.coord l / d.a.get l e) ∧
      (d'.constant = d.constant → d.b.coord l = 0)) ∧
    ∃ k outcome,
      d.simplex.result = .ok (outcome, next^[k] d) ∧
      (∀ limit, (d.simplexWithin limit).result =
        if k ≤ limit then .ok (outcome, next^[k] d) else .error .pivotLimit) ∧
      (∀ n < k, ∃ e l, (next^[n] d).choice = .pivot e l ∧
        ((next^[n] d).pivot e l).result = .ok (next^[n + 1] d)) ∧
      (∀ n ≤ k, (next^[n] d).Feasible ∧ d.Solves (next^[n] d).basicSolution.coord ∧
        ∀ i, 0 ≤ (next^[n] d).basicSolution.coord i) ∧
      ∀ m n, m ≤ n → n ≤ k → (next^[m] d).constant ≤ (next^[n] d).constant := by
  refine ⟨fun e l hchoice => ?_, ?_⟩
  · have hsame : d.next.constant = d.constant → d.b.coord l = 0 :=
      coord_b_eq_zero_of_constant_eq hchoice
    exact ⟨d.next, pivot_result_of_choice_eq hchoice, (rewrites_next hd).wellFormed, hf.next,
      constant_next hchoice, hf.gain_nonneg hchoice, hsame⟩
  · obtain ⟨k, hk, outcome, hstops⟩ := hf.exists_stopsAfter hd
    refine ⟨k, outcome, hstops.simplexWithin_eq (hk.le.trans d.choose_le_pivotLimit),
      hstops.simplexWithin_result, hstops.exists_pivot, fun n _ => ?_,
      fun m n hmn _ => hf.monotone_constant hmn⟩
    have hn := hd.iterate n
    exact ⟨hf.iterate n, ((equivalent_iterate hd n).solves_iff _).mp (solves_basicSolution hn),
      (hf.iterate n).coord_basicSolution_nonneg hn⟩

/-- In the program that would cycle under the other rule, the first variable enters in the place of
one that is zero, so that the objective stays where it is. -/
theorem simplex_ascends_beale :
    (ofStandardForm beale (1 / 10)).choice = .pivot 0 4 ∧
    (ofStandardForm beale (1 / 10)).b.coord 4 = 0 ∧
    ∃ d', ((ofStandardForm beale (1 / 10)).pivot 0 4).result = .ok d' ∧ d'.Feasible ∧
      d'.constant = 0 := by
  have hfeasible : (ofStandardForm beale (1 / 10)).Feasible := by decide +kernel
  have hchoice : (ofStandardForm beale (1 / 10)).choice = .pivot 0 4 := by decide +kernel
  have hb : (ofStandardForm beale (1 / 10)).b.coord 4 = 0 := by decide +kernel
  obtain ⟨d', hpivot, -, hd', hconstant, -⟩ :=
    (simplex_ascends (wellFormed_ofStandardForm _ _) hfeasible).1 0 4 hchoice
  refine ⟨hchoice, hb, d', hpivot, hd', ?_⟩
  rw [hconstant, hb, zero_div, mul_zero, add_zero]
  rfl

end LinProg.Dictionary
