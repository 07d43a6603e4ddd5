import LinProg.Proofs.Dictionary.Choice
import LinProg.Proofs.Dictionary.Solutions

/-!
The pivoting loop as the iteration of one step, over the exact rationals.

* `Dictionary.next`, `Dictionary.Moves`: the dictionary after the pivot that is chosen, and the
  statement that one is.
* `rewrites_next`, `Feasible.next`: what a step keeps; `rewrites_iterate` and `Feasible.iterate` say
  the same of any number of steps.
* `Dictionary.Pivots`, `rewrites_of_pivots`: any pivots, not only those that are chosen.
* `simplexWithin_eq_ok_iff`: the loop gives the first dictionary in which no pivot is chosen, if its
  limit lets it come that far; `simplexWithin_eq_error` says what it gives elsewhere.
-/

namespace LinProg

/-- How the loop ends where no pivot is chosen. -/
def Choice.outcome? : Choice → Option Outcome
  | .optimal => some .optimal
  | .unbounded _ => some .unbounded
  | .pivot .. => none

namespace Dictionary

variable {d : Dictionary ℚ} {e l i : ℕ}

/-! ### One step -/

/-- The dictionary after the pivot that is chosen, and the same one where none is. -/
def next (d : Dictionary ℚ) : Dictionary ℚ :=
  match d.choice with
  | .pivot e l => d.exchange e l
  | _ => d

/-- A pivot is chosen. -/
def Moves (d : Dictionary ℚ) : Prop := ∃ e l, d.choice = .pivot e l

lemma outcome?_eq_none_iff : d.choice.outcome? = none ↔ d.Moves := by
  unfold Moves
  cases d.choice <;> simp [Choice.outcome?]

lemma outcome?_eq_optimal_iff :
    d.choice.outcome? = some .optimal ↔ ∀ j, d.isNonbasic j → d.c.coord j ≤ 0 := by
  rw [← choice_eq_optimal_iff]
  cases d.choice <;> simp [Choice.outcome?]

lemma outcome?_eq_unbounded_iff :
    d.choice.outcome? = some .unbounded ↔ ∃ e, d.choice = .unbounded e := by
  cases d.choice <;> simp [Choice.outcome?]

lemma next_of_choice_eq (h : d.choice = .pivot e l) : d.next = d.exchange e l := by
  simp [next, h]

/-- A step is a legal pivot or nothing. -/
lemma next_cases (d : Dictionary ℚ) :
    (∃ e l, d.choice = .pivot e l ∧ d.LegalPivot e l ∧ d.next = d.exchange e l) ∨ d.next = d := by
  cases h : d.choice with
  | pivot e l => exact .inl ⟨e, l, rfl, legalPivot_of_choice_eq h, next_of_choice_eq h⟩
  | optimal => exact .inr (by simp [next, h])
  | unbounded e => exact .inr (by simp [next, h])

/-- A step is a rewriting. -/
lemma rewrites_next (hd : d.WellFormed) : Rewrites d d.next := by
  obtain ⟨e, l, -, hlegal, h⟩ | h := next_cases d
  · rw [h]
    exact hlegal.rewrites hd
  · rw [h]
    exact .refl hd

lemma pivots_next (h : d.Moves) : d.next.pivots = d.pivots + 1 := by
  obtain ⟨e, l, h⟩ := h
  rw [next_of_choice_eq h]
  rfl

/-! ### Feasible basic solutions -/

/-- The basic solution of a dictionary has no negative value. -/
def Feasible (d : Dictionary ℚ) : Prop := ∀ i, d.isBasic i → 0 ≤ d.b.coord i

instance (d : Dictionary ℚ) : Decidable d.Feasible :=
  decidable_of_iff (∀ i ∈ d.basics, 0 ≤ d.b.coord i) (by simp only [mem_basics, Feasible])

/-- The basic solution of a feasible dictionary is nonnegative. -/
lemma Feasible.coord_b_nonneg (hd : d.WellFormed) (hf : d.Feasible) (hi : i < d.numVariables) :
    0 ≤ d.b.coord i := by
  rcases isBasic_or_isNonbasic hi with hb | hn
  · exact hf i hb
  · exact (hd.coord_b_of_isNonbasic hn).ge

lemma Feasible.fill_nonneg (hf : d.Feasible) (i : ℕ) : 0 ≤ d.fill 0 i := by
  rw [fill]
  split_ifs with hi
  · simpa [rowSum] using hf i hi
  · exact le_rfl

/-- The chosen pivot keeps the basic solution feasible: the least ratio is the farthest that the
entering variable can go. -/
lemma Feasible.exchange (hf : d.Feasible) (h : d.choice = .pivot e l) :
    (d.exchange e l).Feasible := by
  obtain ⟨henter, hleave⟩ := of_choice_eq_pivot h
  have hstep : 0 ≤ d.b.coord l / d.a.get l e := div_nonneg (hf l hleave.isBasic) hleave.pos.le
  intro i hi
  obtain rfl | ⟨hi, hil⟩ := (isBasic_exchange henter.isNonbasic hleave.isBasic).mp hi
  · rw [coord_b_exchange_entering henter.isNonbasic hleave.isBasic]
    exact hstep
  · rw [coord_b_exchange_of_ne henter.isNonbasic hi hil, sub_nonneg]
    by_cases hpos : 0 < d.a.get i e
    · have hratio : d.b.coord l / d.a.get l e ≤ d.b.coord i / d.a.get i e :=
        hleave.ratio_le i hi hpos
      calc d.a.get i e * (d.b.coord l / d.a.get l e)
          ≤ d.a.get i e * (d.b.coord i / d.a.get i e) := mul_le_mul_of_nonneg_left hratio hpos.le
        _ = d.b.coord i := mul_div_cancel₀ _ hpos.ne'
    · exact (mul_nonpos_of_nonpos_of_nonneg (not_lt.mp hpos) hstep).trans (hf i hi)

lemma Feasible.next (hf : d.Feasible) : d.next.Feasible := by
  obtain ⟨e, l, hchoice, -, h⟩ | h := next_cases d
  · rw [h]
    exact hf.exchange hchoice
  · rwa [h]

/-- What the chosen pivot adds to the objective of the basic solution. -/
lemma constant_next (h : d.choice = .pivot e l) :
    d.next.constant = d.constant + d.c.coord e * (d.b.coord l / d.a.get l e) := by
  rw [next_of_choice_eq h]
  rfl

lemma Feasible.gain_nonneg (hf : d.Feasible) (h : d.choice = .pivot e l) :
    0 ≤ d.c.coord e * (d.b.coord l / d.a.get l e) := by
  obtain ⟨henter, hleave⟩ := of_choice_eq_pivot h
  exact mul_nonneg henter.cost_pos.le (div_nonneg (hf l hleave.isBasic) hleave.pos.le)

/-- A step from a feasible dictionary loses no objective. -/
lemma Feasible.constant_le_next (hf : d.Feasible) : d.constant ≤ d.next.constant := by
  cases hchoice : d.choice with
  | pivot e l =>
      rw [constant_next hchoice]
      exact le_add_of_nonneg_right (hf.gain_nonneg hchoice)
  | optimal => simp [Dictionary.next, hchoice]
  | unbounded e => simp [Dictionary.next, hchoice]

/-! ### Any number of steps -/

/-- Any number of steps is a rewriting. -/
lemma rewrites_iterate (hd : d.WellFormed) (n : ℕ) : Rewrites d (next^[n] d) := by
  induction n with
  | zero => exact .refl hd
  | succ n ih =>
      rw [Function.iterate_succ_apply']
      exact ih.trans (rewrites_next ih.wellFormed)

lemma WellFormed.iterate (hd : d.WellFormed) (n : ℕ) : (Dictionary.next^[n] d).WellFormed :=
  (rewrites_iterate hd n).wellFormed

lemma equivalent_iterate (hd : d.WellFormed) (n : ℕ) : Equivalent d (next^[n] d) :=
  (rewrites_iterate hd n).equivalent

lemma Feasible.iterate (hf : d.Feasible) (n : ℕ) : (Dictionary.next^[n] d).Feasible := by
  induction n with
  | zero => exact hf
  | succ n ih =>
      rw [Function.iterate_succ_apply']
      exact ih.next

lemma pivots_iterate {k : ℕ} (h : ∀ n < k, (next^[n] d).Moves) :
    (next^[k] d).pivots = d.pivots + k := by
  induction k with
  | zero => rfl
  | succ k ih =>
      rw [Function.iterate_succ_apply', pivots_next (h k k.lt_succ_self),
        ih fun n hn => h n (hn.trans k.lt_succ_self), add_assoc]

/-- One pivot that is accepted, of any nonbasic with any basic variable. -/
def Pivots (d d' : Dictionary ℚ) : Prop := ∃ e l, (d.pivot e l).result = .ok d'

/-- What is reached by pivots is a rewriting. -/
lemma rewrites_of_pivots {d' : Dictionary ℚ} (hd : d.WellFormed)
    (h : Relation.ReflTransGen Pivots d d') : Rewrites d d' := by
  induction h with
  | refl => exact .refl hd
  | tail _ hstep ih =>
      obtain ⟨e, l, hpivot⟩ := hstep
      obtain ⟨hlegal, rfl⟩ := pivot_result_eq_ok.mp hpivot
      exact ih.trans (hlegal.rewrites ih.wellFormed)

/-- The steps of the loop are such pivots. -/
lemma pivots_reach_iterate (d : Dictionary ℚ) (n : ℕ) :
    Relation.ReflTransGen Pivots d (next^[n] d) := by
  induction n with
  | zero => exact .refl
  | succ n ih =>
      rw [Function.iterate_succ_apply']
      obtain ⟨e, l, -, hlegal, h⟩ | h := next_cases (next^[n] d)
      · exact ih.tail ⟨e, l, pivot_result_eq_ok.mpr ⟨hlegal, h.symm⟩⟩
      · rwa [h]

/-- From a feasible dictionary the objective never falls. -/
lemma Feasible.monotone_constant (hf : d.Feasible) :
    Monotone fun n => (Dictionary.next^[n] d).constant := by
  refine monotone_nat_of_le_succ fun n => ?_
  rw [Function.iterate_succ_apply']
  exact (hf.iterate n).constant_le_next

/-! ### The loop -/

/-- The loop stops after `k` pivots, in the way of `outcome`. -/
structure StopsAfter (d : Dictionary ℚ) (k : ℕ) (outcome : Outcome) : Prop where
  moves : ∀ n < k, (next^[n] d).Moves
  outcome_eq : (next^[k] d).choice.outcome? = some outcome

lemma pivot_result_of_choice_eq (h : d.choice = .pivot e l) :
    (d.pivot e l).result = .ok d.next :=
  pivot_result_eq_ok.mpr ⟨legalPivot_of_choice_eq h, (next_of_choice_eq h).symm⟩

lemma stopsAfter_zero_iff {outcome : Outcome} :
    d.StopsAfter 0 outcome ↔ d.choice.outcome? = some outcome :=
  ⟨fun h => h.outcome_eq, fun h => ⟨fun _ hn => absurd hn (Nat.not_lt_zero _), h⟩⟩

lemma stopsAfter_succ_iff {k : ℕ} {outcome : Outcome} :
    d.StopsAfter (k + 1) outcome ↔ d.Moves ∧ d.next.StopsAfter k outcome := by
  constructor
  · rintro ⟨hmoves, houtcome⟩
    exact ⟨hmoves 0 k.succ_pos, fun n hn => hmoves (n + 1) (Nat.succ_lt_succ hn), houtcome⟩
  · rintro ⟨hmove, hmoves, houtcome⟩
    refine ⟨fun n hn => ?_, houtcome⟩
    cases n with
    | zero => exact hmove
    | succ n => exact hmoves n (Nat.lt_of_succ_lt_succ hn)

/-- A dictionary that moves hands the loop on to the next one, while its limit lasts. -/
lemma simplexWithin_of_moves (h : d.Moves) (limit : ℕ) :
    (d.simplexWithin limit).result =
      match limit with
      | 0 => .error .pivotLimit
      | limit + 1 => (d.next.simplexWithin limit).result := by
  obtain ⟨e, l, h⟩ := h
  cases limit with
  | zero => simp [simplexWithin, h]
  | succ limit =>
      rw [simplexWithin]
      simp only [h, Traced.result_bind, pivot_result_of_choice_eq h, Except.bind]

/-- A dictionary that does not move is the end of the loop. -/
lemma simplexWithin_of_outcome {outcome : Outcome} (h : d.choice.outcome? = some outcome)
    (limit : ℕ) : (d.simplexWithin limit).result = .ok (outcome, d) := by
  unfold simplexWithin
  cases hchoice : d.choice with
  | pivot e l => simp [hchoice, Choice.outcome?] at h
  | optimal =>
      rw [hchoice] at h
      obtain rfl : Outcome.optimal = outcome := Option.some.inj h
      rfl
  | unbounded e =>
      rw [hchoice] at h
      obtain rfl : Outcome.unbounded = outcome := Option.some.inj h
      rfl

/-- A loop that stops gives the dictionary it stops in, where its limit allows the pivots up to
there. -/
lemma StopsAfter.simplexWithin_eq {k limit : ℕ} {outcome : Outcome} (h : d.StopsAfter k outcome)
    (hk : k ≤ limit) : (d.simplexWithin limit).result = .ok (outcome, next^[k] d) := by
  induction k generalizing d limit with
  | zero => exact simplexWithin_of_outcome (stopsAfter_zero_iff.mp h) limit
  | succ k ih =>
      obtain ⟨hmoves, hstops⟩ := stopsAfter_succ_iff.mp h
      obtain ⟨limit, rfl⟩ := Nat.exists_eq_succ_of_ne_zero (Nat.ne_of_gt (k.succ_pos.trans_le hk))
      rw [simplexWithin_of_moves hmoves]
      exact ih hstops (Nat.le_of_succ_le_succ hk)

/-- What the loop gives is a dictionary in which no pivot is chosen, the first one on its way. -/
lemma exists_stopsAfter {limit : ℕ} {outcome : Outcome} {last : Dictionary ℚ}
    (h : (d.simplexWithin limit).result = .ok (outcome, last)) :
    ∃ k ≤ limit, d.StopsAfter k outcome ∧ next^[k] d = last := by
  induction limit generalizing d with
  | zero =>
      cases houtcome : d.choice.outcome? with
      | none =>
          rw [simplexWithin_of_moves (outcome?_eq_none_iff.mp houtcome)] at h
          exact absurd h (by simp)
      | some o =>
          rw [simplexWithin_of_outcome houtcome] at h
          obtain ⟨rfl, rfl⟩ : o = outcome ∧ d = last := by simpa using h
          exact ⟨0, le_rfl, stopsAfter_zero_iff.mpr houtcome, rfl⟩
  | succ limit ih =>
      cases houtcome : d.choice.outcome? with
      | none =>
          have hmoves := outcome?_eq_none_iff.mp houtcome
          rw [simplexWithin_of_moves hmoves] at h
          obtain ⟨k, hk, hstops, hlast⟩ := ih h
          exact ⟨k + 1, Nat.succ_le_succ hk, stopsAfter_succ_iff.mpr ⟨hmoves, hstops⟩, hlast⟩
      | some o =>
          rw [simplexWithin_of_outcome houtcome] at h
          obtain ⟨rfl, rfl⟩ : o = outcome ∧ d = last := by simpa using h
          exact ⟨0, Nat.zero_le _, stopsAfter_zero_iff.mpr houtcome, rfl⟩

/-- The loop gives the first dictionary in which no pivot is chosen, where its limit allows the
pivots up to there. -/
theorem simplexWithin_eq_ok_iff {limit : ℕ} {outcome : Outcome} {last : Dictionary ℚ} :
    (d.simplexWithin limit).result = .ok (outcome, last) ↔
      ∃ k ≤ limit, d.StopsAfter k outcome ∧ next^[k] d = last := by
  refine ⟨exists_stopsAfter, ?_⟩
  rintro ⟨k, hk, hstops, rfl⟩
  exact hstops.simplexWithin_eq hk

/-- What the loop gives stays where it may make more pivots. -/
lemma simplexWithin_mono {limit limit' : ℕ} {outcome : Outcome} {last : Dictionary ℚ}
    (hlimit : limit ≤ limit') (h : (d.simplexWithin limit).result = .ok (outcome, last)) :
    (d.simplexWithin limit').result = .ok (outcome, last) := by
  obtain ⟨n, hn, hstops⟩ := simplexWithin_eq_ok_iff.mp h
  exact simplexWithin_eq_ok_iff.mpr ⟨n, hn.trans hlimit, hstops⟩

/-- Where a pivot is chosen more often than the limit allows, the loop gives none. -/
theorem simplexWithin_eq_error {limit : ℕ} (h : ∀ n ≤ limit, (next^[n] d).Moves) :
    (d.simplexWithin limit).result = .error .pivotLimit := by
  induction limit generalizing d with
  | zero => exact simplexWithin_of_moves (h 0 le_rfl) 0
  | succ limit ih =>
      have hmoves : d.Moves := h 0 (Nat.zero_le _)
      rw [simplexWithin_of_moves hmoves]
      exact ih fun n hn => h (n + 1) (Nat.succ_le_succ hn)

end Dictionary

end LinProg
