import LinProg.Proofs.Dictionary.PhaseOne

/-!
Dictionaries in which the auxiliary variable of phase one cannot leave by itself, over the exact
rationals.

* `Dictionary.Balanced`: once the auxiliary variable is there, the variables that were basic before
  sum to its multiple by the number of rows.
* `Balanced.leaving_ne`, `Balanced.isBasic_iterate`: where the last one of them would go to zero
  with the auxiliary variable, the smaller index leaves. So the loop never has the auxiliary
  variable leave.
* `Balanced.abs_get_le`: once all of them are nonbasic, no coefficient in the row of the auxiliary
  variable is greater than one over the number of rows.
-/

namespace LinProg.Dictionary

open Finset

variable {d r : Dictionary ℚ} {e k l n : ℕ}

/-- With the auxiliary variable added, the variables that were basic before sum to its multiple by
the number of rows, in every solution. -/
def Balanced (d : Dictionary ℚ) : Prop :=
  ∀ x, d.withAuxiliary.Solves x → ∑ j ∈ d.basis, x j = d.numRows * x d.numVariables

section Attached

variable (hbal : d.Balanced) (h : Rewrites d.withAuxiliary r)
include hbal h

/-- The variables that were basic before sum to that multiple along every direction of a
rewriting. -/
lemma Balanced.sum_ray (he : r.isNonbasic e) :
    ∑ j ∈ d.basis, r.ray e j = d.numRows * r.ray e d.numVariables := by
  have hx := solves_fill h.wellFormed 0
  have hbase := hbal _ ((h.equivalent.solves_iff _).mp hx)
  have hmoved := hbal _ ((h.equivalent.solves_iff _).mp (hx.add_ray h.wellFormed he 1))
  simp only [one_smul, Pi.add_apply, sum_add_distrib] at hmoved
  linarith

/-- In a balanced dictionary no chosen pivot has the auxiliary variable leave. Where it would go to
zero, all that were basic before it was added go to zero with it, and one of these comes first. -/
theorem Balanced.leaving_ne (hrows : 0 < d.numRows) (hf : r.Feasible)
    (hchoice : r.choice = .pivot e l) : l ≠ d.numVariables := by
  rintro rfl
  obtain ⟨henter, hleave⟩ := of_choice_eq_pivot hchoice
  have hlegal := legalPivot_of_choice_eq hchoice
  have hnext := h.trans (hlegal.rewrites h.wellFormed)
  have hfeasible := hf.exchange hchoice
  have hgone : (r.exchange e d.numVariables).isNonbasic d.numVariables :=
    (isNonbasic_exchange henter.isNonbasic hleave.isBasic).mpr (.inl rfl)
  -- after the pivot all variables that were basic before the auxiliary one are zero
  have hsum : ∑ j ∈ d.basis, (r.exchange e d.numVariables).fill 0 j = 0 := by
    rw [hbal _ ((hnext.equivalent.solves_iff _).mp (solves_fill hnext.wellFormed 0)),
      fill_of_isNonbasic hgone, Pi.zero_apply, mul_zero]
  have hzero : ∀ j ∈ d.basis, (r.exchange e d.numVariables).fill 0 j = 0 :=
    (sum_eq_zero_iff_of_nonneg fun j _ => hfeasible.fill_nonneg j).mp hsum
  -- and one of them falls as the entering variable grows
  obtain ⟨j, hj, hfalls⟩ : ∃ j ∈ d.basis, r.ray e j < 0 := by
    by_contra hnone
    push Not at hnone
    have hray := hbal.sum_ray h henter.isNonbasic
    rw [ray_of_isBasic henter.isNonbasic hleave.isBasic] at hray
    have hpos : 0 < (d.numRows : ℚ) * r.a.get d.numVariables e :=
      mul_pos (by exact_mod_cast hrows) hleave.pos
    have := sum_nonneg hnone
    linarith
  have hjn : j < d.numVariables := isBasic_lt (mem_basis.mp hj)
  have hjr : j < r.numVariables := hjn.trans (auxiliary_lt h)
  have hjb : r.isBasic j := by
    by_contra hnot
    rw [ray_of_isNonbasic ((isNonbasic_iff_not_isBasic hjr).mpr hnot)] at hfalls
    split_ifs at hfalls <;> norm_num at hfalls
  rw [ray_of_isBasic henter.isNonbasic hjb, neg_neg_iff_pos] at hfalls
  -- so it limits the entering variable as much as the auxiliary one does, and comes first
  have htie : r.ratio e j = r.ratio e d.numVariables := by
    have hvalue := hzero j hj
    rw [fill_zero hnext.wellFormed (by rwa [numVariables_exchange]),
      coord_b_exchange_of_ne henter.isNonbasic hjb hjn.ne] at hvalue
    rw [ratio, ratio, div_eq_iff hfalls.ne']
    linarith
  exact absurd (hleave.first j hjb hfalls htie) (not_le.mpr hjn)

/-- Once all that were basic before are nonbasic, the auxiliary variable depends on each of them
alike and on nothing else. -/
lemma Balanced.abs_get_le (hbasic : r.isBasic d.numVariables)
    (hall : ∀ j ∈ d.basis, r.isNonbasic j) (he : r.isNonbasic e) :
    |r.a.get d.numVariables e| * d.numRows ≤ 1 := by
  have hray := hbal.sum_ray h he
  rw [ray_of_isBasic he hbasic,
    sum_congr rfl fun j hj => ray_of_isNonbasic (e := e) (hall j hj), sum_ite_eq'] at hray
  have hshare : |r.a.get d.numVariables e| * d.numRows = if e ∈ d.basis then 1 else 0 := by
    have hrows : (0 : ℚ) ≤ d.numRows := Nat.cast_nonneg _
    rw [← abs_of_nonneg hrows, ← abs_mul, mul_comm, ← abs_neg, ← mul_neg, ← hray]
    split_ifs <;> simp
  rw [hshare]
  split_ifs <;> norm_num

end Attached

/-- Where the rows are balanced, the auxiliary variable stays basic through the loop. -/
theorem Balanced.isBasic_iterate (hbal : d.Balanced) (hd : d.WellFormed)
    (hlow : d.lowestRow? = some k) (n : ℕ) :
    (next^[n] (d.entered k)).isBasic d.numVariables := by
  have hk := (of_lowestRow?_eq_some hlow).1
  have hentered := rewrites_entered hd hk
  have hrows : 0 < d.numRows := hd.card_basis ▸ card_pos.mpr ⟨k, mem_basis.mpr hk⟩
  induction n with
  | zero =>
      have hlegal := legalPivot_withAuxiliary hd hk
      exact (isBasic_exchange hlegal.isNonbasic hlegal.isBasic).mpr (.inl rfl)
  | succ n ih =>
      rw [Function.iterate_succ_apply']
      obtain ⟨e, l, hchoice, hlegal, hnext⟩ | hnext := next_cases (next^[n] (d.entered k))
      · have hr := hentered.trans (rewrites_iterate hentered.wellFormed n)
        have hne := hbal.leaving_ne hr hrows ((feasible_entered hd hlow).iterate n) hchoice
        rw [hnext]
        exact (isBasic_exchange hlegal.isNonbasic hlegal.isBasic).mpr (.inr ⟨ih, hne.symm⟩)
      · rwa [hnext]

end LinProg.Dictionary
