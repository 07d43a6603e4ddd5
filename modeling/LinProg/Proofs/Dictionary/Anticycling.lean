import LinProg.Proofs.Dictionary.Run

/-!
The rule of the smallest index never comes back to a basis, over the exact rationals.

* `constant_iterate_eq`, `coord_b_iterate_eq`: on the way back to a basis the objective cannot move,
  so every pivot is degenerate and the basic solution stays.
* `false_of_largest`: the largest variable that enters and leaves on such a way cannot do both,
  since a smaller one would have been chosen in its place.
* `basis_iterate_ne`, `injOn_basis`: hence no basis returns.
* `lt_choose_of_moves`, `Feasible.exists_stopsAfter`: hence the loop stops, after fewer pivots than
  there are sets of as many variables as there are rows.
-/

namespace LinProg.Dictionary

open Finset

variable {d d' : Dictionary ℚ} {e l i k m n p q s t : ℕ}

/-! ### Degenerate pivots -/

/-- A pivot that adds nothing to the objective leaves at a right-hand side of zero. -/
lemma coord_b_eq_zero_of_constant_eq (hchoice : d.choice = .pivot e l)
    (h : d.next.constant = d.constant) : d.b.coord l = 0 := by
  obtain ⟨henter, hleave⟩ := of_choice_eq_pivot hchoice
  rw [constant_next hchoice] at h
  have hgain : d.c.coord e * (d.b.coord l / d.a.get l e) = 0 := by linarith
  rcases mul_eq_zero.mp hgain with hc | hratio
  · exact absurd hc henter.cost_pos.ne'
  · exact (div_eq_zero_iff.mp hratio).resolve_right hleave.pos.ne'

/-- A pivot on a right-hand side of zero moves no right-hand side. -/
lemma coord_b_exchange_of_degenerate (hd : d.WellFormed) (he : d.isNonbasic e)
    (hb : d.b.coord l = 0) (hi : i < d.numVariables) :
    (d.exchange e l).b.coord i = d.b.coord i := by
  have hbe := hd.coord_b_of_isNonbasic he
  rw [coord_b_exchange d e l hi]
  by_cases hil : i = l
  · simp [exchangedRhs, hil, hb]
  · by_cases hie : i = e
    · simp [exchangedRhs, hie, solvedRhs, hb, hbe]
    · simp [exchangedRhs, hil, hie, solvedRhs, hb]

/-! ### On the way back to a basis -/

/-- What a closed run keeps from step to step holds everywhere on it as soon as it holds once. -/
lemma holds_on_cycle {P : ℕ → Prop} (hstep : ∀ n < k, P n → P (n + 1)) (hclose : P k → P 0)
    (hm : m ≤ k) (hn : n ≤ k) (h : P m) : P n := by
  have hforward : ∀ a b, a ≤ b → b ≤ k → P a → P b := by
    intro a b hab hb ha
    induction b, hab using Nat.le_induction with
    | base => exact ha
    | succ b _ ih => exact hstep b hb (ih (Nat.le_of_succ_le hb))
  exact hforward 0 n (Nat.zero_le n) hn (hclose (hforward m k hm le_rfl h))

section Return

variable (hd : d.WellFormed) (hf : d.Feasible) (hmoves : ∀ n < k, (next^[n] d).Moves)
  (hreturn : (next^[k] d).basis = d.basis)
include hd hf hmoves hreturn

omit hmoves in
/-- The objective is where it was, and so it was there all the time. -/
lemma constant_iterate_eq (hn : n ≤ k) : (next^[n] d).constant = d.constant := by
  have hback : (next^[k] d).constant = d.constant := by
    refine constant_eq_of_equivalent hd (hd.iterate k) (equivalent_iterate hd k) fun j => ?_
    rw [← mem_basis, ← mem_basis, hreturn]
  have hup : d.constant ≤ (next^[n] d).constant := hf.monotone_constant (Nat.zero_le n)
  have hdown : (next^[n] d).constant ≤ (next^[k] d).constant := hf.monotone_constant hn
  exact le_antisymm (hdown.trans hback.le) hup

/-- All pivots are degenerate, and the right-hand sides stay. -/
lemma coord_b_iterate_eq (hn : n ≤ k) (hi : i < d.numVariables) :
    (next^[n] d).b.coord i = d.b.coord i := by
  induction n with
  | zero => rfl
  | succ n ih =>
      obtain ⟨e, l, hchoice⟩ := hmoves n hn
      have hsame : (next^[n] d).next.constant = (next^[n] d).constant := by
        rw [← Function.iterate_succ_apply' next n d, constant_iterate_eq hd hf hreturn hn,
          constant_iterate_eq hd hf hreturn (Nat.le_of_succ_le hn)]
      have hb := coord_b_eq_zero_of_constant_eq hchoice hsame
      have hin : i < (next^[n] d).numVariables := by
        rwa [(equivalent_iterate hd n).numVariables_eq]
      rw [Function.iterate_succ_apply', next_of_choice_eq hchoice,
        coord_b_exchange_of_degenerate (hd.iterate n) (of_choice_eq_pivot hchoice).1.isNonbasic hb
          hin, ih (Nat.le_of_succ_le hn)]

omit hd hf in
/-- A variable that is basic at one step and not at another leaves at some step. -/
lemma exists_leaves (hp : p ≤ k) (hq : q ≤ k) (hip : (next^[p] d).isNonbasic i)
    (hiq : (next^[q] d).isBasic i) : ∃ n < k, ∃ e, (next^[n] d).choice = .pivot e i := by
  by_contra hnone
  push Not at hnone
  have hstep : ∀ n < k, (next^[n] d).isBasic i → (next^[n + 1] d).isBasic i := by
    intro n hn hi
    obtain ⟨e, l, hchoice⟩ := hmoves n hn
    have hlegal := legalPivot_of_choice_eq hchoice
    rw [Function.iterate_succ_apply', next_of_choice_eq hchoice,
      isBasic_exchange hlegal.isNonbasic hlegal.isBasic]
    refine .inr ⟨hi, ?_⟩
    rintro rfl
    exact hnone n hn e hchoice
  have hclose : (next^[k] d).isBasic i → (next^[0] d).isBasic i := by
    rw [← mem_basis, hreturn, mem_basis]
    exact id
  exact not_isBasic_of_isNonbasic hip (holds_on_cycle hstep hclose hq hp hiq)

omit hf in
/-- A variable that is basic at one step and not at another enters at some step. -/
lemma exists_enters (hp : p ≤ k) (hq : q ≤ k) (hip : (next^[p] d).isNonbasic i)
    (hiq : (next^[q] d).isBasic i) : ∃ n < k, ∃ l, (next^[n] d).choice = .pivot i l := by
  by_contra hnone
  push Not at hnone
  have hstep : ∀ n < k, (next^[n] d).isNonbasic i → (next^[n + 1] d).isNonbasic i := by
    intro n hn hi
    obtain ⟨e, l, hchoice⟩ := hmoves n hn
    have hlegal := legalPivot_of_choice_eq hchoice
    rw [Function.iterate_succ_apply', next_of_choice_eq hchoice,
      isNonbasic_exchange hlegal.isNonbasic hlegal.isBasic]
    refine .inr ⟨hi, ?_⟩
    rintro rfl
    exact hnone n hn l hchoice
  have hclose : (next^[k] d).isNonbasic i → (next^[0] d).isNonbasic i := by
    intro hi
    have hlt := isNonbasic_lt hi
    rw [(equivalent_iterate hd k).numVariables_eq] at hlt
    have hnot := not_isBasic_of_isNonbasic hi
    rw [← mem_basis, hreturn, mem_basis] at hnot
    exact (isNonbasic_iff_not_isBasic hlt).mpr hnot
  exact not_isBasic_of_isNonbasic (holds_on_cycle hstep hclose hp hq hip) hiq

end Return

/-! ### Two dictionaries of a cycle -/

/-- In one of two equivalent dictionaries with the same right-hand sides the variable `t` leaves, in
the other it enters, and no variable beyond `t` has changed sides between them. This cannot be: the
direction in which the entering variable `s` of the first improves the objective shows a variable
below `t` that would have left in its place. -/
theorem false_of_largest (hd : d.WellFormed) (hd' : d'.WellFormed) (h : Equivalent d d')
    (hleave : d.choice = .pivot s t) (henter : d'.choice = .pivot t l) (hst : s ≤ t)
    (hlargest : ∀ i, d.isBasic i → d'.isNonbasic i → i ≤ t)
    (hb : ∀ i < d.numVariables, d'.b.coord i = d.b.coord i) : False := by
  obtain ⟨hs, ht⟩ := of_choice_eq_pivot hleave
  obtain ⟨ht', -⟩ := of_choice_eq_pivot henter
  have hst : s < t := lt_of_le_of_ne hst (ne_of_isBasic_of_isNonbasic ht.isBasic hs.isNonbasic).symm
  -- below `t` no cost of the second dictionary is positive
  have hcost : ∀ j < t, j < d'.numVariables → d'.c.coord j ≤ 0 := by
    intro j hj hjn
    rcases isBasic_or_isNonbasic hjn with hb | hn
    · exact (hd'.coord_c_of_isBasic hb).le
    · exact ht'.first j hj hn
  obtain ⟨j, hj, hgain⟩ : ∃ j < d'.numVariables, 0 < d'.c.coord j * d.ray s j := by
    by_contra hnone
    push Not at hnone
    have hsum : d'.costSum (d.ray s) ≤ 0 :=
      sum_nonpos fun j hj => hnone j (mem_range.mp hj)
    rw [h.costSum_ray hd hs.isNonbasic] at hsum
    exact absurd hs.cost_pos (not_lt.mpr hsum)
  have hjd : j < d.numVariables := h.numVariables_eq ▸ hj
  rcases isBasic_or_isNonbasic hjd with hjb | hjn
  · rw [ray_of_isBasic hs.isNonbasic hjb] at hgain
    have hjn' : d'.isNonbasic j := by
      rw [isNonbasic_iff_not_isBasic hj]
      intro hjb'
      rw [hd'.coord_c_of_isBasic hjb', zero_mul] at hgain
      exact lt_irrefl _ hgain
    have hjt : j < t := by
      refine lt_of_le_of_ne (hlargest j hjb hjn') ?_
      rintro rfl
      have := mul_pos ht'.cost_pos ht.pos
      linarith
    have hpos : 0 < d.a.get j s := by
      by_contra hneg
      have := mul_nonpos_of_nonpos_of_nonneg (hcost j hjt hj) (neg_nonneg.mpr (not_lt.mp hneg))
      linarith
    -- both `j` and `t` limit `s` to zero, and `j` comes first
    have hratio : ∀ i < d.numVariables, d'.isNonbasic i → d.ratio s i = 0 := by
      intro i hi hin
      rw [ratio, ← hb i hi, hd'.coord_b_of_isNonbasic hin]
      exact zero_div _
    have hfirst := ht.first j hjb hpos
      ((hratio j hjd hjn').trans (hratio t (isBasic_lt ht.isBasic) ht'.isNonbasic).symm)
    omega
  · rw [ray_of_isNonbasic hjn] at hgain
    split_ifs at hgain with hjs
    · subst hjs
      have := hcost j hst hj
      linarith
    · simp at hgain

/-! ### No basis returns -/

/-- A run of at least one pivot from a feasible dictionary does not come back to its basis. -/
theorem basis_iterate_ne (hd : d.WellFormed) (hf : d.Feasible) (hk : 0 < k)
    (hmoves : ∀ n < k, (next^[n] d).Moves) : (next^[k] d).basis ≠ d.basis := by
  intro hreturn
  choose! e l hchoice using hmoves
  have hmoves : ∀ n < k, (next^[n] d).Moves := fun n hn => ⟨e n, l n, hchoice n hn⟩
  -- the largest variable that enters does so at the step `p`, and it leaves at the step `q`
  obtain ⟨p, hp, hmax⟩ := exists_max_image (range k) e (nonempty_range_iff.mpr hk.ne')
  rw [mem_range] at hp
  have hin := of_choice_eq_pivot (hchoice p hp)
  have hafter : (next^[p + 1] d).isBasic (e p) := by
    rw [Function.iterate_succ_apply', next_of_choice_eq (hchoice p hp),
      isBasic_exchange hin.1.isNonbasic hin.2.isBasic]
    exact .inl rfl
  obtain ⟨q, hq, s, hleave⟩ := exists_leaves hmoves hreturn hp.le hp hin.1.isNonbasic hafter
  have hs : s = e q := by
    rw [hchoice q hq] at hleave
    exact (Choice.pivot.inj hleave).1.symm
  have hequiv : Equivalent (next^[q] d) (next^[p] d) :=
    (equivalent_iterate hd q).symm.trans (equivalent_iterate hd p)
  refine false_of_largest (hd.iterate q) (hd.iterate p) hequiv hleave (hchoice p hp)
    (hs ▸ hmax q (mem_range.mpr hq)) ?_ ?_
  · intro i hiq hip
    obtain ⟨n, hn, l', henter⟩ := exists_enters hd hmoves hreturn hp.le hq.le hip hiq
    rw [hchoice n hn] at henter
    rw [← (Choice.pivot.inj henter).1]
    exact hmax n (mem_range.mpr hn)
  · intro i hi
    rw [(equivalent_iterate hd q).numVariables_eq] at hi
    rw [coord_b_iterate_eq hd hf hmoves hreturn hp.le hi,
      coord_b_iterate_eq hd hf hmoves hreturn hq.le hi]

/-- The bases that a run visits are pairwise different. -/
theorem injOn_basis (hd : d.WellFormed) (hf : d.Feasible)
    (hmoves : ∀ n < k, (next^[n] d).Moves) :
    Set.InjOn (fun n => (next^[n] d).basis) {n | n ≤ k} := by
  have hlt : ∀ m n, m < n → n ≤ k → (next^[n] d).basis ≠ (next^[m] d).basis := by
    intro m n hmn hn
    have hsplit : n = n - m + m := (Nat.sub_add_cancel hmn.le).symm
    rw [hsplit, Function.iterate_add_apply]
    refine basis_iterate_ne (hd.iterate m) (hf.iterate m) (Nat.sub_pos_of_lt hmn) fun r hr => ?_
    rw [← Function.iterate_add_apply]
    exact hmoves (r + m) (by omega)
  intro m hm n hn heq
  rcases lt_trichotomy m n with h | h | h
  · exact absurd heq.symm (hlt m n h hn)
  · exact h
  · exact absurd heq (hlt n m h hm)

/-! ### The loop stops -/

/-- A run makes fewer pivots than there are sets of as many variables as there are rows. -/
theorem lt_choose_of_moves (hd : d.WellFormed) (hf : d.Feasible)
    (hmoves : ∀ n < k, (next^[n] d).Moves) : k < d.numVariables.choose d.numRows := by
  have hmaps : ∀ n ∈ range (k + 1),
      (next^[n] d).basis ∈ powersetCard d.numRows (range d.numVariables) := by
    intro n _
    rw [mem_powersetCard, (hd.iterate n).card_basis, (rewrites_iterate hd n).numRows_eq]
    refine ⟨fun j hj => ?_, rfl⟩
    rw [mem_range, ← (equivalent_iterate hd n).numVariables_eq]
    exact isBasic_lt (mem_basis.mp hj)
  have hinj : Set.InjOn (fun n => (next^[n] d).basis) (range (k + 1)) := by
    intro m hm n hn
    rw [coe_range, Set.mem_Iio, Nat.lt_succ_iff] at hm hn
    exact injOn_basis hd hf hmoves hm hn
  have hcard := card_le_card_of_injOn _ hmaps hinj
  rwa [card_range, card_powersetCard, card_range] at hcard

/-- From a feasible dictionary the loop stops. -/
theorem Feasible.exists_stopsAfter (hd : d.WellFormed) (hf : d.Feasible) :
    ∃ k < d.numVariables.choose d.numRows, ∃ outcome, d.StopsAfter k outcome := by
  have hstop : ∃ n, ¬ (Dictionary.next^[n] d).Moves := by
    by_contra hnone
    push Not at hnone
    exact absurd (lt_choose_of_moves hd hf fun n (_ : n < d.numVariables.choose d.numRows) =>
      hnone n) (lt_irrefl _)
  classical
  have hmoves : ∀ n < Nat.find hstop, (Dictionary.next^[n] d).Moves := fun n hn =>
    not_not.mp (Nat.find_min hstop hn)
  refine ⟨Nat.find hstop, lt_choose_of_moves hd hf hmoves, ?_⟩
  cases houtcome : (Dictionary.next^[Nat.find hstop] d).choice.outcome? with
  | none => exact absurd (outcome?_eq_none_iff.mp houtcome) (Nat.find_spec hstop)
  | some outcome => exact ⟨outcome, hmoves, houtcome⟩

/-- The limit of the loop is beyond the number of pivots that it can make. -/
lemma choose_le_pivotLimit (d : Dictionary ℚ) :
    d.numVariables.choose d.numRows ≤ d.pivotLimit :=
  (Nat.choose_le_two_pow _ _).trans (Nat.pow_le_pow_right two_pos (Nat.le_add_right _ _))

end LinProg.Dictionary
