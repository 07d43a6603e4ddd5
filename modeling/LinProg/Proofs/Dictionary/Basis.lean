import LinProg.Proofs.Dictionary.Certificates

/-!
The basic variables determine the dictionary of a program, over the exact rationals.

* `Dictionary.Advances`: the calls that lead from one dictionary to the next: a pivot that is
  accepted, a run of the loop, a phase one that finds a feasible basic solution.
  `rewrites_of_advances` says that any number of them is a rewriting.
* `LegalPivot.reverse`, `basis_exchange_exchange`: the pivot back is legal, and restores the basic
  variables.
* `Equivalent.eq_of_basis_eq`: equivalent dictionaries with the same basic variables agree in every
  cell. `basis_determines_dictionary` says so of any two histories of one program, of a pivot and
  the pivot back, and of phase one beside plain pivots.
-/

namespace LinProg.Dictionary

open StandardForm

/-! ### Histories -/

/-- One call on a dictionary that leads to another one: a pivot that is accepted, a run of the loop,
or phase one where it finds a feasible basic solution. -/
inductive Advances (d d' : Dictionary ℚ) : Prop where
  | pivot (e l : ℕ) (h : (d.pivot e l).result = .ok d') : Advances d d'
  | simplex (limit : ℕ) (outcome : Outcome)
      (h : (d.simplexWithin limit).result = .ok (outcome, d')) : Advances d d'
  | phaseOne (limit : ℕ) (h : (d.phaseOneWithin limit).result = .ok (true, d')) : Advances d d'

variable {form : StandardForm ℚ} {tolerance tolerance' : ℚ} {d d' : Dictionary ℚ} {e l : ℕ}

/-- One call is a rewriting. -/
lemma Advances.rewrites (hd : d.WellFormed) (h : Advances d d') : Rewrites d d' := by
  cases h with
  | pivot e l h =>
      obtain ⟨hlegal, rfl⟩ := pivot_result_eq_ok.mp h
      exact hlegal.rewrites hd
  | simplex limit outcome h =>
      obtain ⟨k, -, -, rfl⟩ := exists_stopsAfter h
      exact rewrites_iterate hd k
  | phaseOne limit h => exact of_phaseOneWithin_eq_true hd h

/-- Any number of calls is a rewriting. -/
theorem rewrites_of_advances (hd : d.WellFormed) (h : Relation.ReflTransGen Advances d d') :
    Rewrites d d' := by
  induction h with
  | refl => exact .refl hd
  | tail _ hstep ih => exact ih.trans (hstep.rewrites ih.wellFormed)

/-- The tolerance of a dictionary is no part of what it says. -/
lemma equivalent_ofStandardForm (form : StandardForm ℚ) (tolerance tolerance' : ℚ) :
    Equivalent (ofStandardForm form tolerance) (ofStandardForm form tolerance') :=
  ⟨rfl, fun _ => Iff.rfl, fun _ => rfl⟩

/-! ### The pivot back -/

/-- After a legal pivot the pivot of the same two variables, the other way round, is legal. -/
lemma LegalPivot.reverse (h : d.LegalPivot e l) : (d.exchange e l).LegalPivot l e where
  isNonbasic := (isNonbasic_exchange h.isNonbasic h.isBasic).mpr (.inl rfl)
  isBasic := (isBasic_exchange h.isNonbasic h.isBasic).mpr (.inl rfl)
  ne_zero := by
    have hel := (ne_of_isBasic_of_isNonbasic h.isBasic h.isNonbasic).symm
    have hcell : (d.exchange e l).a.get e l = 1 / d.a.get l e := by
      rw [get_exchange d e l (isNonbasic_lt h.isNonbasic) (isBasic_lt h.isBasic), exchangedCell,
        if_neg hel, if_pos rfl, solvedCell, if_pos rfl, pivotCell]
    simpa [hcell] using h.coefficient_ne_zero

/-- A pivot and the one back together leave the same variables basic. -/
lemma basis_exchange_exchange (h : d.LegalPivot e l) :
    ((d.exchange e l).exchange l e).basis = d.basis := by
  have he : e ∉ d.basis.erase l := fun hmem =>
    not_isBasic_of_isNonbasic h.isNonbasic (mem_basis.mp (Finset.mem_of_mem_erase hmem))
  rw [basis_exchange h.reverse.isNonbasic h.reverse.isBasic,
    basis_exchange h.isNonbasic h.isBasic, Finset.erase_insert he,
    Finset.insert_erase (mem_basis.mpr h.isBasic)]

/-! ### One dictionary for each set of basic variables -/

lemma roles_eq_of_basis_eq (hnum : d'.numVariables = d.numVariables) (hbasis : d'.basis = d.basis) :
    d'.roles = d.roles := by
  refine Array.ext hnum fun j hj' hj => ?_
  have hiff : d'.isBasic j ↔ d.isBasic j := by rw [← mem_basis, ← mem_basis, hbasis]
  rw [isBasic_iff, isBasic_iff, Array.getElem?_eq_getElem hj', Array.getElem?_eq_getElem hj,
    Option.some.injEq, Option.some.injEq] at hiff
  cases hrole : d.roles[j] <;> cases hrole' : d'.roles[j] <;> simp_all

/-- Equivalent dictionaries of one size with the same basic variables agree in every cell. Only the
tolerance and the number of pivots made are not determined. -/
theorem Equivalent.eq_of_basis_eq (h : Equivalent d d') (hd : d.WellFormed) (hd' : d'.WellFormed)
    (hrows : d'.numRows = d.numRows) (hcolumns : d'.numColumns = d.numColumns)
    (hbasis : d'.basis = d.basis) :
    d' = { d with tolerance := d'.tolerance, pivots := d'.pivots } := by
  have hroles : ∀ j, d'.isBasic j ↔ d.isBasic j := fun j => by
    rw [← mem_basis, ← mem_basis, hbasis]
  have hnum := h.numVariables_eq
  have ha : d'.a = d.a := by
    refine DenseMatrix.ext_get hd'.wellShaped_a hd.wellShaped_a ?_ ?_ fun i hi j hj => ?_
    · rw [hd'.rows_a, hd.rows_a, hnum]
    · rw [hd'.cols_a, hd.cols_a, hnum]
    · rw [hd'.rows_a, hnum] at hi
      rw [hd'.cols_a, hnum] at hj
      exact get_eq_of_equivalent hd hd' h hroles hi hj
  have hb : d'.b = d.b := by
    refine Coords.ext_coord (hd'.size_b.trans (hnum.trans hd.size_b.symm)) fun i hi => ?_
    rw [hd'.size_b, hnum] at hi
    exact coord_b_eq_of_equivalent hd hd' h hroles hi
  have hc : d'.c = d.c := by
    refine Coords.ext_coord (hd'.size_c.trans (hnum.trans hd.size_c.symm)) fun j hj => ?_
    rw [hd'.size_c, hnum] at hj
    exact coord_c_eq_of_equivalent hd hd' h hroles hj
  have hconstant := constant_eq_of_equivalent hd hd' h hroles
  have hsame := roles_eq_of_basis_eq hnum hbasis
  calc d' = ⟨d'.a, d'.b, d'.c, d'.constant, d'.roles, d'.numRows, d'.numColumns, d'.tolerance,
        d'.pivots⟩ := rfl
    _ = { d with tolerance := d'.tolerance, pivots := d'.pivots } := by
        rw [ha, hb, hc, hconstant, hsame, hrows, hcolumns]

/-- A rewriting with the same basic variables differs in nothing but the number of pivots. -/
lemma Rewrites.eq_of_basis_eq (h : Rewrites d d') (hd : d.WellFormed)
    (hbasis : d'.basis = d.basis) : d' = { d with pivots := d'.pivots } := by
  have heq := h.equivalent.eq_of_basis_eq hd h.wellFormed h.numRows_eq h.numColumns_eq hbasis
  rwa [h.tolerance_eq] at heq

/-- Two rewritings of the dictionary of one program with the same basic variables differ in nothing
but the tolerance and the number of pivots. -/
lemma eq_of_rewrites_ofStandardForm (h : Rewrites (ofStandardForm form tolerance) d)
    (h' : Rewrites (ofStandardForm form tolerance') d') (hbasis : d'.basis = d.basis) :
    d' = { d with tolerance := d'.tolerance, pivots := d'.pivots } := by
  have hequivalent : Equivalent d d' := (h.equivalent.symm.trans
    (equivalent_ofStandardForm form tolerance tolerance')).trans h'.equivalent
  exact hequivalent.eq_of_basis_eq h.wellFormed h'.wellFormed (h'.numRows_eq.trans h.numRows_eq.symm)
    (h'.numColumns_eq.trans h.numColumns_eq.symm) hbasis

/-- The set of basic variables determines the dictionary of a program. Any two histories that end
with the same basic variables end in the same dictionary, up to the tolerance they were started with
and the number of pivots made; a pivot and the pivot back restore the dictionary; and phase one ends
where plain pivots to the same basic variables do. -/
theorem basis_determines_dictionary (form : StandardForm ℚ) (tolerance : ℚ) :
    (∀ tolerance' d d', Relation.ReflTransGen Advances (ofStandardForm form tolerance) d →
      Relation.ReflTransGen Advances (ofStandardForm form tolerance') d' → d'.basis = d.basis →
        d' = { d with tolerance := d'.tolerance, pivots := d'.pivots }) ∧
    (∀ d d' e l, Relation.ReflTransGen Advances (ofStandardForm form tolerance) d →
      (d.pivot e l).result = .ok d' →
        (d'.pivot l e).result = .ok { d with pivots := d.pivots + 2 }) ∧
    ∀ start ready d limit, Relation.ReflTransGen Advances (ofStandardForm form tolerance) start →
      (start.phaseOneWithin limit).result = .ok (true, ready) →
      Relation.ReflTransGen Pivots (ofStandardForm form tolerance) d → d.basis = ready.basis →
        d = { ready with pivots := d.pivots } := by
  have hfresh := wellFormed_ofStandardForm form
  refine ⟨?_, ?_, ?_⟩
  · intro tolerance' d d' h h' hbasis
    exact eq_of_rewrites_ofStandardForm (rewrites_of_advances (hfresh tolerance) h)
      (rewrites_of_advances (hfresh tolerance') h') hbasis
  · intro d d' e l h hpivot
    obtain ⟨hlegal, rfl⟩ := pivot_result_eq_ok.mp hpivot
    have hd := (rewrites_of_advances (hfresh tolerance) h).wellFormed
    have hthere := hlegal.rewrites hd
    have hback := hthere.trans (hlegal.reverse.rewrites hthere.wellFormed)
    exact pivot_result_eq_ok.mpr
      ⟨hlegal.reverse, hback.eq_of_basis_eq hd (basis_exchange_exchange hlegal)⟩
  · intro start ready d limit hstart hready hd hbasis
    have hready := rewrites_of_advances (hfresh tolerance) (hstart.tail (.phaseOne limit hready))
    have hd := rewrites_of_pivots (hfresh tolerance) hd
    have heq := eq_of_rewrites_ofStandardForm hready hd hbasis
    rwa [hd.tolerance_eq, ← hready.tolerance_eq] at heq

/-- A column between one and three: phase one takes two pivots to the basic variables that one pivot
leads to, and the pivot back gives the dictionary of the program again. -/
theorem basis_determines_dictionary_between :
    ∃ ready straight other,
      ((ofStandardForm (between 1 3) (1 / 10)).phaseOneWithin 9).result = .ok (true, ready) ∧
      ((ofStandardForm (between 1 3) (1 / 10)).pivot 0 1).result = .ok straight ∧
      ((ofStandardForm (between 1 3) (1 / 20)).pivot 0 1).result = .ok other ∧
      straight.basis = ready.basis ∧ straight.pivots = 1 ∧ ready.pivots = 2 ∧
      other = { ready with tolerance := other.tolerance, pivots := other.pivots } ∧
      (other.pivot 1 0).result =
        .ok { ofStandardForm (between 1 3) (1 / 20) with pivots := 2 } ∧
      straight = { ready with pivots := straight.pivots } := by
  refine ⟨_, _, _, by cbv, by cbv, by cbv, by decide +kernel, rfl, rfl, ?_, ?_, ?_⟩
  · exact (basis_determines_dictionary (between 1 3) (1 / 10)).1 (1 / 20) _ _
      (.single (.phaseOne 9 (by cbv))) (.single (.pivot 0 1 (by cbv))) (by decide +kernel)
  · exact (basis_determines_dictionary (between 1 3) (1 / 20)).2.1 _ _ 0 1 .refl (by cbv)
  · exact (basis_determines_dictionary (between 1 3) (1 / 10)).2.2 _ _ _ 9 .refl (by cbv)
      (.single ⟨0, 1, by cbv⟩) (by decide +kernel)

end LinProg.Dictionary
