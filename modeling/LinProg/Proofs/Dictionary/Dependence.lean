import LinProg.Proofs.Dictionary.Basis
import LinProg.Proofs.Dictionary.History
import LinProg.Proofs.Dictionary.Termination
import LinProg.Proofs.StandardForm.ClosedForm

/-!
Dependent columns and rows in the dictionaries of a model, over the exact rationals.

* `SpelledOut.get_negative`, `SpelledOut.row_negated`: the two columns of a free variable are
  negations of each other, and so are the two rows of an equation.
* `Dictionary.IsDirection`: a direction along which solutions stay solutions. Rewritings keep it,
  and so does the auxiliary variable, where it is zero; `Reachable.isDirection` says so of a whole
  run.
* `IsDirection.exists_ne_zero`: it moves a nonbasic variable.
* `Reachable.not_both_basic`: hence the columns of a free variable are never both basic.
* `not_both_nonbasic`: the slacks of an equation, whose sum is zero, are never both nonbasic.
* `dependent_pairs`: both for the model.
-/

namespace LinProg

open Finset

/-! ### Negated columns and rows -/

/-- Cells that carry a weight and its negation are negations of each other. -/
lemma Substitution.Carries.neg_eq {s : Substitution ℚ} {weight : ℚ} {cells cells' : ℕ → ℚ}
    (h : s.Carries weight cells) (h' : s.Carries (-weight) cells') {j : ℕ} (hj : j ∈ s.columns) :
    cells' j = -cells j := by
  cases s with
  | shifted lower column =>
      obtain rfl : j = column := by simpa using hj
      rw [show cells j = weight from h, show cells' j = -weight from h']
  | reflected upper column =>
      obtain rfl : j = column := by simpa using hj
      rw [show cells j = -weight from h, show cells' j = - -weight from h']
  | split positive negative =>
      obtain rfl | rfl : j = positive ∨ j = negative := by simpa using hj
      · rw [h.1, h'.1]
      · rw [h.2, h'.2]

/-- The rows of the first constraints come first, and then those of the others. -/
lemma rowOrigins_append (vars : List (Variable ℚ)) (constraints rest : List (Constraint ℚ)) :
    rowOrigins vars (constraints ++ rest) =
      rowOrigins vars constraints ++ rest.flatMap Constraint.origins := by
  rw [rowOrigins, rowOrigins, List.flatMap_append, List.append_assoc]

/-- The number of rows before those of the constraint at a place. -/
def rowsBefore (vars : List (Variable ℚ)) (constraints : List (Constraint ℚ)) (k : ℕ) : ℕ :=
  (rowOrigins vars (constraints.take k)).length

/-- An equation has two rows in sequence. -/
lemma rowOrigins_equation (vars : List (Variable ℚ)) {constraints : List (Constraint ℚ)} {k : ℕ}
    {c : Constraint ℚ} (hc : constraints[k]? = some c) (heq : c.relation = .eq) :
    (rowOrigins vars constraints)[rowsBefore vars constraints k]? = some (.constraint 1 c) ∧
      (rowOrigins vars constraints)[rowsBefore vars constraints k + 1]? =
        some (.constraint (-1) c) := by
  obtain ⟨hk, rfl⟩ := List.getElem?_eq_some_iff.mp hc
  have horigins : constraints[k].origins =
      [.constraint 1 constraints[k], .constraint (-1) constraints[k]] := by
    rw [Constraint.origins, heq]
  have hsplit : rowOrigins vars constraints = rowOrigins vars (constraints.take k) ++
      (constraints[k].origins ++ (constraints.drop (k + 1)).flatMap Constraint.origins) := by
    rw [← List.flatMap_cons, ← List.drop_eq_getElem_cons hk, ← rowOrigins_append,
      List.take_append_drop]
  rw [hsplit, horigins, rowsBefore]
  constructor
  · rw [List.getElem?_append_right le_rfl, Nat.sub_self]
    rfl
  · rw [List.getElem?_append_right (Nat.le_add_right _ 1), Nat.add_sub_cancel_left]
    rfl

namespace StandardForm

variable {form : StandardForm ℚ} {vars : List (Variable ℚ)} {constraints : List (Constraint ℚ)}
  {objective : Objective ℚ} (h : SpelledOut form vars constraints objective)
include h

/-- The columns of a free variable are negations of each other. -/
theorem SpelledOut.get_negative {p n r : ℕ}
    (hs : .split p n ∈ (ColumnMap.ofVariables vars).substitutions) (hr : r < form.numRows) :
    form.a.get r n = -form.a.get r p := by
  obtain ⟨i, hi⟩ := List.mem_iff_getElem?.mp hs
  have hr := h.numRows_eq ▸ hr
  have horigin := List.getElem?_eq_getElem hr
  have hrow := h.row r _ horigin
  cases heq : (rowOrigins vars constraints)[r] with
  | constraint sign c =>
      rw [heq] at hrow
      obtain ⟨hpositive, hnegative⟩ := hrow.1.carries i _ hi
      rw [hnegative, hpositive]
  | bounds k =>
      rw [heq] at hrow
      obtain ⟨v, lower, upper, column, -, -, -, hk, hcells, -⟩ := hrow
      -- the column of a variable with two bounds is not one of a free variable
      have hne : ∀ j ∈ (Substitution.split p n : Substitution ℚ).columns, j ≠ column := by
        rintro j hj rfl
        obtain rfl := ColumnMap.eq_of_mem_columns hi hk hj (by simp)
        cases hi.symm.trans hk
      have hzero : ∀ j ∈ (Substitution.split p n : Substitution ℚ).columns, form.a.get r j = 0 :=
        fun j hj => by rw [hcells j (ColumnMap.lt_numColumns hs hj), if_neg (hne j hj)]
      rw [hzero p (by simp), hzero n (by simp),
        neg_zero]

/-- The two rows of an equation are negations of each other. -/
theorem SpelledOut.row_negated {k : ℕ} {c : Constraint ℚ} (hc : constraints[k]? = some c)
    (heq : c.relation = .eq) :
    rowsBefore vars constraints k + 1 < form.numRows ∧
      form.b.coord (rowsBefore vars constraints k + 1) =
        -form.b.coord (rowsBefore vars constraints k) ∧
      ∀ j < form.numColumns, form.a.get (rowsBefore vars constraints k + 1) j =
        -form.a.get (rowsBefore vars constraints k) j := by
  obtain ⟨hplain, hnegated⟩ := rowOrigins_equation vars hc heq
  obtain ⟨hcells, hrhs⟩ := h.row _ _ hplain
  obtain ⟨hcells', hrhs'⟩ := h.row _ _ hnegated
  refine ⟨h.numRows_eq ▸ (List.getElem?_eq_some_iff.mp hnegated).1, ?_, fun j hj => ?_⟩
  · rw [hrhs, hrhs', one_mul, neg_one_mul]
  · obtain ⟨i, ⟨s, hs, hjs⟩, -⟩ := h.column j hj
    have hcarries := hcells.carries i s hs
    have hcarries' := hcells'.carries i s hs
    rw [one_mul] at hcarries
    rw [neg_one_mul] at hcarries'
    exact hcarries.neg_eq hcarries' hjs

end StandardForm

namespace Dictionary

open StandardForm

variable {form : StandardForm ℚ} {tolerance : ℚ} {d d' : Dictionary ℚ} {x z : ℕ → ℚ} {i j : ℕ}

/-! ### Directions -/

/-- A direction: each basic variable moves by what its row subtracts. -/
def IsDirection (d : Dictionary ℚ) (z : ℕ → ℚ) : Prop := ∀ i, d.isBasic i → z i = -d.rowSum i z

/-- Along a direction a solution stays one, and along nothing else. -/
lemma isDirection_iff (hd : d.WellFormed) :
    d.IsDirection z ↔ ∀ x, d.Solves x → d.Solves (x + z) := by
  constructor
  · intro hz x hx i hi
    rw [Pi.add_apply, rowSum_add, hx i hi, hz i hi]
    ring
  · intro h i hi
    have hx := solves_fill hd 0
    have hsum := h _ hx i hi
    rw [Pi.add_apply, rowSum_add, hx i hi] at hsum
    linarith

/-- Rewritings have the same directions. -/
lemma IsDirection.rewrites (hd : d.WellFormed) (hz : d.IsDirection z) (h : Rewrites d d') :
    d'.IsDirection z := by
  refine (isDirection_iff h.wellFormed).mpr fun x hx => ?_
  rw [h.equivalent.solves_iff] at hx ⊢
  exact (isDirection_iff hd).mp hz x hx

/-- The auxiliary variable may stay where it is. -/
lemma IsDirection.withAuxiliary (hd : d.WellFormed) (hz : d.IsDirection z)
    (hlast : z d.numVariables = 0) : d.withAuxiliary.IsDirection z := by
  intro i hi
  rw [isBasic_withAuxiliary] at hi
  rw [rowSum_withAuxiliary hd hi, hlast, sub_zero, hz i hi]

/-- A direction moves a nonbasic variable if it moves any. -/
lemma IsDirection.exists_ne_zero (hd : d.WellFormed) (hz : d.IsDirection z) (hi : d.isBasic i)
    (hne : z i ≠ 0) : ∃ j, d.isNonbasic j ∧ z j ≠ 0 := by
  by_contra hnone
  push Not at hnone
  have hsum : d.rowSum i z = d.rowSum i 0 := rowSum_congr hd (isBasic_lt hi) hnone
  rw [hz i hi, hsum] at hne
  exact hne (by simp [rowSum])

/-- A run from a program never has fewer variables than the program has columns. -/
lemma Reachable.numColumns_le (h : Reachable form tolerance d) :
    form.numColumns ≤ d.numVariables := by
  induction h with
  | fresh =>
      rw [numVariables_ofStandardForm]
      exact Nat.le_add_right _ _
  | pivot _ hpivot ih =>
      obtain ⟨-, rfl⟩ := pivot_result_eq_ok.mp hpivot
      rwa [numVariables_exchange]
  | attach _ ih =>
      rw [numVariables_withAuxiliary]
      exact Nat.le_succ_of_le ih
  | phaseOne h hphase ih =>
      have hgrows := grows_of_phaseOneWithin h.wellFormed hphase
      rw [hgrows.numVariables_eq]
      exact Nat.le_add_right_of_le ih

/-- A direction among the columns of a program is one in every dictionary of a run. -/
theorem Reachable.isDirection (h : Reachable form tolerance d)
    (hz : (ofStandardForm form tolerance).IsDirection z)
    (hzero : ∀ j, form.numColumns ≤ j → z j = 0) : d.IsDirection z := by
  induction h with
  | fresh => exact hz
  | pivot h hpivot ih =>
      obtain ⟨hlegal, rfl⟩ := pivot_result_eq_ok.mp hpivot
      exact ih.rewrites h.wellFormed (hlegal.rewrites h.wellFormed)
  | attach h ih => exact ih.withAuxiliary h.wellFormed (hzero _ h.numColumns_le)
  | @phaseOne _ _ _ found h hphase ih =>
      have hd := h.wellFormed
      cases found with
      | true => exact ih.rewrites hd (of_phaseOneWithin_eq_true hd hphase)
      | false =>
          have hattached := ih.withAuxiliary hd (hzero _ h.numColumns_le)
          exact hattached.rewrites hd.withAuxiliary
            (of_phaseOneWithin_eq_false hd hphase).1.rewrites

lemma Reachable.pivots (h : Reachable form tolerance d)
    (hpivots : Relation.ReflTransGen Pivots d d') : Reachable form tolerance d' := by
  induction hpivots with
  | refl => exact h
  | tail _ hstep ih =>
      obtain ⟨e, l, hpivot⟩ := hstep
      exact ih.pivot hpivot

/-- The calls that add no variable are among those of a run. -/
lemma reachable_of_advances
    (h : Relation.ReflTransGen Advances (ofStandardForm form tolerance) d) :
    Reachable form tolerance d := by
  induction h with
  | refl => exact .fresh
  | tail _ hstep ih =>
      cases hstep with
      | pivot e l hpivot => exact ih.pivot hpivot
      | simplex limit outcome hloop =>
          obtain ⟨n, -, -, rfl⟩ := exists_stopsAfter hloop
          exact ih.pivots (pivots_reach_iterate _ n)
      | phaseOne limit hphase => exact ih.phaseOne hphase

/-! ### Columns of a free variable -/

section Split

variable {p n : ℕ}

/-- The direction in which two columns grow together. -/
def together (p n : ℕ) : ℕ → ℚ := Pi.single p 1 + Pi.single n 1

lemma together_left (hne : p ≠ n) : together p n p = 1 := by
  rw [together, Pi.add_apply, Pi.single_eq_same, Pi.single_eq_of_ne hne, add_zero]

lemma together_eq_zero (hp : j ≠ p) (hn : j ≠ n) : together p n j = 0 := by
  rw [together, Pi.add_apply, Pi.single_eq_of_ne hp, Pi.single_eq_of_ne hn, add_zero]

variable (hlt : p < form.numColumns ∧ n < form.numColumns)
include hlt

lemma together_eq_zero_of_le (hj : form.numColumns ≤ j) : together p n j = 0 :=
  together_eq_zero (hlt.1.trans_le hj).ne' (hlt.2.trans_le hj).ne'

lemma lhs_together (r : ℕ) : form.lhs r (together p n) = form.a.get r p + form.a.get r n := by
  simp only [lhs, together, Pi.add_apply, Pi.single_apply, mul_add, mul_ite, mul_one, mul_zero]
  rw [sum_add_distrib, sum_ite_eq', sum_ite_eq', if_pos (mem_range.mpr hlt.1),
    if_pos (mem_range.mpr hlt.2)]

variable (hcolumns : ∀ r < form.numRows, form.a.get r n = -form.a.get r p)
include hcolumns

/-- Two negated columns may grow together. -/
lemma isDirection_together : (ofStandardForm form tolerance).IsDirection (together p n) := by
  intro i hi
  obtain ⟨hni, hi⟩ := isBasic_ofStandardForm.mp hi
  obtain ⟨r, rfl⟩ := Nat.exists_eq_add_of_le hni
  have hr : r < form.numRows := Nat.lt_of_add_lt_add_left hi
  rw [rowSum_ofStandardForm hr, lhs_together hlt, hcolumns r hr, add_neg_cancel, neg_zero,
    together_eq_zero_of_le hlt hni]

variable (hne : p ≠ n)
include hne

/-- Two negated columns are never both basic, whatever else is nonbasic. -/
theorem Reachable.not_both_basic (h : Reachable form tolerance d) :
    ¬ (d.isBasic p ∧ d.isBasic n) := by
  rintro ⟨hp, hn⟩
  have hz := h.isDirection (isDirection_together hlt hcolumns) fun _ => together_eq_zero_of_le hlt
  have hmoves : together p n p ≠ 0 := by
    rw [together_left hne]
    exact one_ne_zero
  obtain ⟨j, hj, hzj⟩ := hz.exists_ne_zero h.wellFormed hp hmoves
  exact hzj (together_eq_zero (ne_of_isBasic_of_isNonbasic hp hj).symm
    (ne_of_isBasic_of_isNonbasic hn hj).symm)

/-- One of two negated columns is zero at every basic solution. -/
lemma Reachable.coord_basicSolution_eq_zero (h : Reachable form tolerance d) :
    d.basicSolution.coord p = 0 ∨ d.basicSolution.coord n = 0 := by
  have hd := h.wellFormed
  have hzero : ∀ j < form.numColumns, ¬ d.isBasic j → d.basicSolution.coord j = 0 := by
    intro j hj hnot
    have hjd := hj.trans_le h.numColumns_le
    rw [coord_basicSolution hd hjd]
    exact hd.coord_b_of_isNonbasic ((isNonbasic_iff_not_isBasic hjd).mpr hnot)
  rcases not_and_or.mp (h.not_both_basic hlt hcolumns hne) with hp | hn
  · exact .inl (hzero p hlt.1 hp)
  · exact .inr (hzero n hlt.2 hn)

end Split

/-! ### Slacks of an equation -/

/-- The slacks of two negated rows sum to zero, and so are not both nonbasic in any rewriting. -/
theorem not_both_nonbasic {r r' : ℕ} (h : Rewrites (ofStandardForm form tolerance) d)
    (hr : r < form.numRows) (hr' : r' < form.numRows) (hne : r ≠ r')
    (hrhs : form.b.coord r' = -form.b.coord r)
    (hrow : ∀ j < form.numColumns, form.a.get r' j = -form.a.get r j) :
    ¬ (d.isNonbasic (form.numColumns + r) ∧ d.isNonbasic (form.numColumns + r')) := by
  rintro ⟨hs, hs'⟩
  have hsum : ∀ x, d.Solves x → x (form.numColumns + r) + x (form.numColumns + r') = 0 := by
    intro x hx
    have hslacks := solves_ofStandardForm_iff.mp ((h.equivalent.solves_iff x).mp hx)
    have hlhs : form.lhs r' x = -form.lhs r x := by
      rw [lhs, lhs, ← sum_neg_distrib]
      exact sum_congr rfl fun j hj => by rw [hrow j (mem_range.mp hj), neg_mul]
    rw [hslacks r hr, hslacks r' hr', hlhs, hrhs]
    ring
  -- with both nonbasic, one of them could be one where the other is zero
  have hone := hsum _ (solves_fill h.wellFormed (Pi.single (form.numColumns + r) 1))
  have hother : form.numColumns + r' ≠ form.numColumns + r := by omega
  rw [fill_of_isNonbasic hs, fill_of_isNonbasic hs', Pi.single_eq_same, Pi.single_eq_of_ne hother,
    add_zero] at hone
  exact one_ne_zero hone

/-! ### The dictionaries of a model -/

/-- Of the two columns of a free variable one is nonbasic, and one is zero at the basic solution. -/
def SplitsApart (d : Dictionary ℚ) (map : ColumnMap ℚ) : Prop :=
  ∀ p n, .split p n ∈ map.substitutions →
    ¬ (d.isBasic p ∧ d.isBasic n) ∧
      (d.basicSolution.coord p = 0 ∨ d.basicSolution.coord n = 0)

/-- Of the two slacks of an equation one is basic. -/
def KeepsEquations (d : Dictionary ℚ) (form : StandardForm ℚ) (vars : List (Variable ℚ))
    (constraints : List (Constraint ℚ)) : Prop :=
  ∀ k (c : Constraint ℚ), constraints[k]? = some c → c.relation = .eq →
    let slack := form.numColumns + rowsBefore vars constraints k
    slack + 1 < form.numColumns + form.numRows ∧ ¬ (d.isNonbasic slack ∧ d.isNonbasic (slack + 1))

/-- Dependent columns and rows never degenerate the basis of a model. In every dictionary that
pivots, runs of the loop and phases one that find a feasible basic solution lead to, the two columns
of a free variable are never both basic, so that one of them is zero at the basic solution, and the
two slacks of an equation are never both nonbasic. The columns keep apart while auxiliary variables
are there, too. -/
theorem dependent_pairs {vars : List (Variable ℚ)} {constraints : List (Constraint ℚ)}
    {objective? : Option (Objective ℚ)} {form : StandardForm ℚ} {map : ColumnMap ℚ}
    (hform : ofModel vars constraints objective? = .ok (form, map)) (tolerance : ℚ) :
    (∀ d, Relation.ReflTransGen Advances (ofStandardForm form tolerance) d →
      d.SplitsApart map ∧ d.KeepsEquations form vars constraints) ∧
    ∀ d, Reachable form tolerance d → d.SplitsApart map := by
  obtain ⟨rfl, objective, hspelled⟩ := spelledOut_of_ofModel_eq_ok hform
  have hsplit : ∀ d, Reachable form tolerance d → d.SplitsApart (ColumnMap.ofVariables vars) := by
    intro d hd p n hs
    have hcount : (ColumnMap.ofVariables vars).numColumns = form.numColumns := by
      rw [hspelled.numColumns_eq, ColumnMap.numColumns_ofVariables, funext Variable.isFree_rat]
    have hp := ColumnMap.lt_numColumns hs (c := p) (by simp)
    have hn := ColumnMap.lt_numColumns hs (c := n) (by simp)
    have hlt := And.intro (hcount ▸ hp) (hcount ▸ hn)
    have hne : p ≠ n := by simpa [Substitution.columns] using ColumnMap.nodup_columns hs
    have hcolumns := fun r hr => hspelled.get_negative hs (r := r) hr
    exact ⟨hd.not_both_basic hlt hcolumns hne, hd.coord_basicSolution_eq_zero hlt hcolumns hne⟩
  refine ⟨fun d hd => ⟨hsplit d (reachable_of_advances hd), fun k c hc heq => ?_⟩, hsplit⟩
  obtain ⟨hr, hrhs, hrow⟩ := hspelled.row_negated hc heq
  have hrewrites := rewrites_of_advances (wellFormed_ofStandardForm form tolerance) hd
  refine ⟨Nat.add_lt_add_left hr _, ?_⟩
  exact not_both_nonbasic hrewrites (Nat.lt_of_succ_lt hr) hr (Nat.ne_of_lt (Nat.lt_succ_self _))
    hrhs hrow

/-- In the mixed model the second variable is free and the second constraint is an equation. Once
the one column is basic in the place of the one slack, the other column and the other slack keep
their roles. -/
theorem dependent_pairs_mixed :
    ∃ form map d,
      ofModel mixedVariables mixedConstraints (some mixedObjective) = .ok (form, map) ∧
      ((ofStandardForm form (1 / 10)).pivot 1 6).result = .ok d ∧
      (d.isBasic 1 ∧ ¬ d.isBasic 2) ∧ (d.isNonbasic 6 ∧ ¬ d.isNonbasic 7) := by
  obtain ⟨form, map, d, hform, hpivot, hbasic, hnonbasic, hs, hslack⟩ : ∃ form map d,
      ofModel mixedVariables mixedConstraints (some mixedObjective) = .ok (form, map) ∧
      ((ofStandardForm form (1 / 10)).pivot 1 6).result = .ok d ∧
      d.isBasic 1 ∧ d.isNonbasic 6 ∧ .split 1 2 ∈ map.substitutions ∧
      form.numColumns + rowsBefore mixedVariables mixedConstraints 1 = 6 :=
    ⟨_, _, _, by cbv, by cbv, by decide +kernel, by decide +kernel, by decide, by decide +kernel⟩
  obtain ⟨hsplits, hequations⟩ :=
    (dependent_pairs hform (1 / 10)).1 d (.single (.pivot 1 6 hpivot))
  have hslacks := (hequations 1 _ rfl rfl).2
  rw [hslack] at hslacks
  refine ⟨form, map, d, hform, hpivot, ⟨hbasic, fun h => (hsplits 1 2 hs).1 ⟨hbasic, h⟩⟩,
    hnonbasic, fun h => hslacks ⟨hnonbasic, h⟩⟩

end Dictionary

end LinProg
