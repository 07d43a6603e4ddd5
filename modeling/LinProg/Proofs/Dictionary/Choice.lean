import LinProg.Proofs.Dictionary.Scans

/-!
What the rule of the smallest index chooses, over the exact rationals.

* `Dictionary.Enters`, `Dictionary.Leaves`: the properties of the entering and of the leaving
  variable.
* `choice_eq_optimal_iff`, `choice_eq_unbounded_iff`, `of_choice_eq_pivot`: the three answers.
* `Dictionary.Prescribes`, `choice_eq_iff`: the rule itself, and that the choice follows it.
* `lowestRow?_eq_none_iff`, `of_lowestRow?_eq_some`, `steepest?_eq_none_iff`: what the scans of
  phase one find.
-/

namespace LinProg.Dictionary

variable {d : Dictionary ℚ} {e l i j k : ℕ}

/-! ### The entering variable -/

/-- The variable `e` is the first nonbasic one with a positive cost. -/
structure Enters (d : Dictionary ℚ) (e : ℕ) : Prop where
  isNonbasic : d.isNonbasic e
  cost_pos : 0 < d.c.coord e
  first : ∀ j < e, d.isNonbasic j → d.c.coord j ≤ 0

lemma entering?_eq_none_iff : d.entering? = none ↔ ∀ j, d.isNonbasic j → d.c.coord j ≤ 0 := by
  simp [entering?, List.find?_eq_none, mem_nonbasics]

/-- The scan for the entering variable sees the variables in ascending order. -/
lemma entering?_eq_some_iff : d.entering? = some e ↔ d.Enters e := by
  rw [entering?, nonbasics, List.find?_filter, List.find?_range_eq_some]
  simp only [decide_eq_true_eq, List.mem_range, Bool.not_eq_true', decide_eq_false_iff_not,
    not_and, not_lt]
  constructor
  · rintro ⟨⟨he, hc⟩, -, hfirst⟩
    exact ⟨he, hc, hfirst⟩
  · rintro ⟨he, hc, hfirst⟩
    exact ⟨⟨he, hc⟩, isNonbasic_lt he, hfirst⟩

/-! ### The leaving variable -/

/-- The basic variable `l` limits the variable `e` most and is the first that does. -/
structure Leaves (d : Dictionary ℚ) (e l : ℕ) : Prop where
  isBasic : d.isBasic l
  pos : 0 < d.a.get l e
  ratio_le : ∀ i, d.isBasic i → 0 < d.a.get i e → d.ratio e l ≤ d.ratio e i
  first : ∀ i, d.isBasic i → 0 < d.a.get i e → d.ratio e i = d.ratio e l → l ≤ i

/-- The answer of a scan for the least key: none without members, else the first member with the
least key. -/
def FirstLeast (key : ℕ → ℚ) (xs : List ℕ) : Option (ℕ × ℚ) → Prop
  | none => xs = []
  | some (l, q) =>
      l ∈ xs ∧ q = key l ∧ (∀ i ∈ xs, key l ≤ key i) ∧ ∀ i ∈ xs, key i = key l → l ≤ i

/-- One more member, behind all others, takes the lead only where its key is below the best. -/
lemma FirstLeast.append {key : ℕ → ℚ} {xs : List ℕ} {best? : Option (ℕ × ℚ)} {x : ℕ}
    (hlt : ∀ i ∈ xs, i < x) (h : FirstLeast key xs best?) :
    FirstLeast key (xs ++ [x]) (if improves best? (key x) then some (x, key x) else best?) := by
  match best?, h with
  | none, h =>
      subst h
      have hx : improves none (key x) = true := rfl
      simp [hx, FirstLeast]
  | some (l, _), ⟨hl, rfl, hle, hfirst⟩ =>
      by_cases hx : key x < key l
      · have hbelow : ∀ i ∈ xs, key x < key i := fun i hi => hx.trans_le (hle i hi)
        simp only [improves, hx, decide_true, if_true]
        refine ⟨by simp, rfl, fun i hi => ?_, fun i hi heq => ?_⟩ <;>
          rcases List.mem_append.mp hi with hi | hi
        · exact (hbelow i hi).le
        · rw [List.mem_singleton.mp hi]
        · exact absurd heq (hbelow i hi).ne'
        · rw [List.mem_singleton.mp hi]
      · -- the best so far stays, also where the new key is equal to it
        simp only [improves, hx, decide_false, Bool.false_eq_true, if_false]
        refine ⟨List.mem_append_left _ hl, rfl, fun i hi => ?_, fun i hi heq => ?_⟩ <;>
          rcases List.mem_append.mp hi with hi | hi
        · exact hle i hi
        · rw [List.mem_singleton.mp hi]
          exact not_lt.mp hx
        · exact hfirst i hi heq
        · rw [List.mem_singleton.mp hi]
          exact (hlt l hl).le

/-- A scan in ascending order that goes on to each better key ends with the first least one. -/
lemma firstLeast_foldl (key : ℕ → ℚ) {xs : List ℕ} (hxs : xs.Pairwise (· < ·)) :
    FirstLeast key xs (xs.foldl
      (fun best? i => if improves best? (key i) then some (i, key i) else best?) none) := by
  induction xs using List.reverseRecOn with
  | nil => rfl
  | append_singleton xs x ih =>
      obtain ⟨hpre, -, hlast⟩ := List.pairwise_append.mp hxs
      rw [List.foldl_append, List.foldl_cons, List.foldl_nil]
      exact (ih hpre).append fun i hi => hlast i hi x (by simp)

/-- The rows that limit a variable. -/
def limiting (d : Dictionary ℚ) (e : ℕ) : List ℕ :=
  d.basics.filter fun i => decide (0 < d.a.get i e)

lemma mem_limiting : i ∈ d.limiting e ↔ d.isBasic i ∧ 0 < d.a.get i e := by
  simp [limiting, mem_basics]

lemma firstLeast_tightest? (d : Dictionary ℚ) (e : ℕ) :
    FirstLeast (d.ratio e) (d.limiting e) (d.tightest? e) := by
  refine firstLeast_foldl (d.ratio e) ?_
  exact (List.pairwise_lt_range.filter _).filter _

lemma tightest?_eq_none_iff : d.tightest? e = none ↔ ∀ i, d.isBasic i → d.a.get i e ≤ 0 := by
  have hspec := firstLeast_tightest? d e
  constructor
  · intro h i hi
    rw [h] at hspec
    by_contra hpos
    have hmem := mem_limiting.mpr ⟨hi, not_le.mp hpos⟩
    rw [show d.limiting e = [] from hspec] at hmem
    exact absurd hmem (by simp)
  · intro h
    cases htight : d.tightest? e with
    | none => rfl
    | some best =>
        obtain ⟨l, q⟩ := best
        rw [htight] at hspec
        obtain ⟨hl, hpos⟩ := mem_limiting.mp hspec.1
        exact absurd hpos (not_lt.mpr (h l hl))

lemma leaves_of_tightest?_eq_some {q : ℚ} (h : d.tightest? e = some (l, q)) : d.Leaves e l := by
  have hspec := firstLeast_tightest? d e
  rw [h] at hspec
  obtain ⟨hl, -, hle, hfirst⟩ := hspec
  obtain ⟨hbasic, hpos⟩ := mem_limiting.mp hl
  exact ⟨hbasic, hpos, fun i hi hi' => hle i (mem_limiting.mpr ⟨hi, hi'⟩),
    fun i hi hi' => hfirst i (mem_limiting.mpr ⟨hi, hi'⟩)⟩

/-! ### The choice -/

/-- The choice is optimal exactly where no cost is positive. -/
theorem choice_eq_optimal_iff :
    d.choice = .optimal ↔ ∀ j, d.isNonbasic j → d.c.coord j ≤ 0 := by
  rw [← entering?_eq_none_iff, choice]
  cases d.entering? with
  | none => simp
  | some e =>
      dsimp only
      cases d.tightest? e <;> simp

/-- The choice is unbounded along the entering variable exactly where no row limits it. -/
theorem choice_eq_unbounded_iff :
    d.choice = .unbounded e ↔ d.Enters e ∧ ∀ i, d.isBasic i → d.a.get i e ≤ 0 := by
  rw [← entering?_eq_some_iff, ← tightest?_eq_none_iff, choice]
  cases d.entering? with
  | none => simp
  | some e' =>
      dsimp only
      cases htight : d.tightest? e' with
      | none =>
          simp only [Choice.unbounded.injEq, Option.some.injEq]
          exact ⟨fun h => ⟨h, h ▸ htight⟩, fun h => h.1⟩
      | some best =>
          simp only [reduceCtorEq, Option.some.injEq, false_iff, not_and]
          rintro rfl h
          rw [htight] at h
          exact absurd h (by simp)

/-- A pivot is chosen on the entering variable and the variable that limits it most. -/
theorem of_choice_eq_pivot (h : d.choice = .pivot e l) : d.Enters e ∧ d.Leaves e l := by
  rw [choice] at h
  cases henter : d.entering? with
  | none => simp [henter] at h
  | some e' =>
      cases htight : d.tightest? e' with
      | none => simp [henter, htight] at h
      | some best =>
          simp only [henter, htight, Choice.pivot.injEq] at h
          obtain ⟨rfl, rfl⟩ := h
          exact ⟨entering?_eq_some_iff.mp henter, leaves_of_tightest?_eq_some htight⟩

/-! ### The rule -/

/-- There is one entering variable at most. -/
lemma Enters.eq {e' : ℕ} (h : d.Enters e) (h' : d.Enters e') : e = e' := by
  have hle : ∀ {e e'}, d.Enters e → d.Enters e' → e ≤ e' := fun {e e'} h h' => by
    by_contra hlt
    exact absurd h'.cost_pos (not_lt.mpr (h.first e' (not_le.mp hlt) h'.isNonbasic))
  exact le_antisymm (hle h h') (hle h' h)

/-- There is one leaving variable at most. -/
lemma Leaves.eq {l' : ℕ} (h : d.Leaves e l) (h' : d.Leaves e l') : l = l' := by
  have hratio : d.ratio e l = d.ratio e l' :=
    le_antisymm (h.ratio_le l' h'.isBasic h'.pos) (h'.ratio_le l h.isBasic h.pos)
  exact le_antisymm (h.first l' h'.isBasic h'.pos hratio.symm) (h'.first l h.isBasic h.pos hratio)

/-- The answers that the rule of the smallest index prescribes. Nothing is asked of the right-hand
sides, which may be negative. -/
inductive Prescribes (d : Dictionary ℚ) : Choice → Prop where
  /-- No nonbasic variable has a positive cost. -/
  | optimal (h : ∀ j, d.isNonbasic j → ¬ 0 < d.c.coord j) : Prescribes d .optimal
  /-- The first variable with a positive cost is limited by no row. -/
  | unbounded {e : ℕ} (henter : d.Enters e) (h : ∀ i, d.isBasic i → ¬ 0 < d.a.get i e) :
      Prescribes d (.unbounded e)
  /-- That variable is limited, and of the rows with the least ratio the first one leaves. -/
  | pivot {e l : ℕ} (henter : d.Enters e) (hleave : d.Leaves e l) : Prescribes d (.pivot e l)

/-- The rule prescribes one answer at most. -/
lemma Prescribes.eq {answer answer' : Choice} (h : d.Prescribes answer)
    (h' : d.Prescribes answer') : answer = answer' := by
  cases h with
  | optimal hnone =>
      cases h' with
      | optimal => rfl
      | unbounded henter' => exact absurd henter'.cost_pos (hnone _ henter'.isNonbasic)
      | pivot henter' => exact absurd henter'.cost_pos (hnone _ henter'.isNonbasic)
  | unbounded henter hfree =>
      cases h' with
      | optimal hnone => exact absurd henter.cost_pos (hnone _ henter.isNonbasic)
      | unbounded henter' => rw [henter.eq henter']
      | pivot henter' hleave' =>
          obtain rfl := henter.eq henter'
          exact absurd hleave'.pos (hfree _ hleave'.isBasic)
  | pivot henter hleave =>
      cases h' with
      | optimal hnone => exact absurd henter.cost_pos (hnone _ henter.isNonbasic)
      | unbounded henter' hfree =>
          obtain rfl := henter.eq henter'
          exact absurd hleave.pos (hfree _ hleave.isBasic)
      | pivot henter' hleave' =>
          obtain rfl := henter.eq henter'
          rw [hleave.eq hleave']

/-- The choice is an answer that the rule prescribes. -/
lemma prescribes_choice (d : Dictionary ℚ) : d.Prescribes d.choice := by
  cases hchoice : d.choice with
  | optimal => exact .optimal fun j hj => not_lt.mpr (choice_eq_optimal_iff.mp hchoice j hj)
  | unbounded e =>
      obtain ⟨henter, hfree⟩ := choice_eq_unbounded_iff.mp hchoice
      exact .unbounded henter fun i hi => not_lt.mpr (hfree i hi)
  | pivot e l =>
      obtain ⟨henter, hleave⟩ := of_choice_eq_pivot hchoice
      exact .pivot henter hleave

/-- The choice is the one answer that the rule of the smallest index prescribes, in every
dictionary. -/
theorem choice_eq_iff {answer : Choice} : d.choice = answer ↔ d.Prescribes answer := by
  constructor
  · rintro rfl
    exact d.prescribes_choice
  · exact d.prescribes_choice.eq

/-! ### The scans of phase one -/

/-- The answer of a scan that starts from a threshold: either no member passes it, or the member
that is found does, and none is better. -/
def Best (better : ℚ → ℚ → Prop) (key : ℕ → ℚ) (threshold : ℚ) (xs : List ℕ) :
    ℚ × Option ℕ → Prop
  | (q, none) => q = threshold ∧ ∀ i ∈ xs, ¬ better (key i) threshold
  | (q, some k) =>
      k ∈ xs ∧ q = key k ∧ better (key k) threshold ∧ ∀ i ∈ xs, ¬ better (key i) (key k)

/-- One more member takes the lead only where it is better. -/
lemma Best.append {better : ℚ → ℚ → Prop} [DecidableRel better] [IsStrictOrder ℚ better]
    {key : ℕ → ℚ} {threshold : ℚ} {xs : List ℕ} {best : ℚ × Option ℕ} (x : ℕ)
    (h : Best better key threshold xs best) :
    Best better key threshold (xs ++ [x])
      (if better (key x) best.1 then (key x, some x) else best) := by
  match best, h with
  | (_, none), ⟨rfl, hnone⟩ =>
      by_cases hx : better (key x) threshold
      · simp only [hx, if_true]
        refine ⟨by simp, rfl, hx, fun i hi hix => ?_⟩
        rcases List.mem_append.mp hi with hi | hi
        · exact hnone i hi (trans_of better hix hx)
        · rw [List.mem_singleton.mp hi] at hix
          exact irrefl_of better _ hix
      · simp only [hx, if_false]
        refine ⟨rfl, fun i hi => ?_⟩
        rcases List.mem_append.mp hi with hi | hi
        · exact hnone i hi
        · rw [List.mem_singleton.mp hi]
          exact hx
  | (_, some k), ⟨hk, rfl, hpass, hbest⟩ =>
      by_cases hx : better (key x) (key k)
      · simp only [hx, if_true]
        refine ⟨by simp, rfl, trans_of better hx hpass, fun i hi hix => ?_⟩
        rcases List.mem_append.mp hi with hi | hi
        · exact hbest i hi (trans_of better hix hx)
        · rw [List.mem_singleton.mp hi] at hix
          exact irrefl_of better _ hix
      · simp only [hx, if_false]
        refine ⟨List.mem_append_left _ hk, rfl, hpass, fun i hi => ?_⟩
        rcases List.mem_append.mp hi with hi | hi
        · exact hbest i hi
        · rw [List.mem_singleton.mp hi]
          exact hx

/-- A scan that goes on to each better key ends with one that none is better than. -/
lemma best_foldl (better : ℚ → ℚ → Prop) [DecidableRel better] [IsStrictOrder ℚ better]
    (key : ℕ → ℚ) (threshold : ℚ) (xs : List ℕ) :
    Best better key threshold xs (xs.foldl
      (fun best i => if better (key i) best.1 then (key i, some i) else best)
      (threshold, none)) := by
  induction xs using List.reverseRecOn with
  | nil => exact ⟨rfl, by simp⟩
  | append_singleton xs x ih =>
      rw [List.foldl_append, List.foldl_cons, List.foldl_nil]
      exact ih.append x

lemma Best.eq_none_iff {better : ℚ → ℚ → Prop} {key : ℕ → ℚ} {threshold : ℚ} {xs : List ℕ}
    {best : ℚ × Option ℕ} (h : Best better key threshold xs best) :
    best.2 = none ↔ ∀ i ∈ xs, ¬ better (key i) threshold := by
  match best, h with
  | (_, none), ⟨_, hnone⟩ => exact ⟨fun _ => hnone, fun _ => rfl⟩
  | (_, some k), ⟨hk, _, hpass, _⟩ =>
      exact ⟨fun h => absurd h (by simp), fun h => absurd hpass (h k hk)⟩

lemma Best.of_eq_some {better : ℚ → ℚ → Prop} {key : ℕ → ℚ} {threshold : ℚ} {xs : List ℕ}
    {best : ℚ × Option ℕ} (h : Best better key threshold xs best) (hk : best.2 = some k) :
    k ∈ xs ∧ better (key k) threshold ∧ ∀ i ∈ xs, ¬ better (key i) (key k) := by
  match best, h with
  | (_, none), _ => exact absurd hk (by simp)
  | (_, some k'), ⟨hmem, _, hpass, hbest⟩ =>
      obtain rfl : k' = k := Option.some.inj hk
      exact ⟨hmem, hpass, hbest⟩

lemma best_lowestRow? (d : Dictionary ℚ) :
    ∃ best, Best (· < ·) d.b.coord 0 d.basics best ∧ d.lowestRow? = best.2 :=
  ⟨_, best_foldl (· < ·) _ _ _, rfl⟩

/-- There is no lowest row exactly where the basic solution is feasible. -/
lemma lowestRow?_eq_none_iff :
    d.lowestRow? = none ↔ ∀ i, d.isBasic i → 0 ≤ d.b.coord i := by
  obtain ⟨best, hbest, heq⟩ := best_lowestRow? d
  rw [heq, hbest.eq_none_iff]
  simp [mem_basics]

/-- The lowest row has the least right-hand side, which is negative. -/
lemma of_lowestRow?_eq_some (h : d.lowestRow? = some k) :
    d.isBasic k ∧ d.b.coord k < 0 ∧ ∀ i, d.isBasic i → d.b.coord k ≤ d.b.coord i := by
  obtain ⟨best, hbest, heq⟩ := best_lowestRow? d
  rw [heq] at h
  obtain ⟨hk, hneg, hle⟩ := hbest.of_eq_some h
  exact ⟨mem_basics.mp hk, hneg, fun i hi => not_lt.mp (hle i (mem_basics.mpr hi))⟩

lemma best_steepest? (d : Dictionary ℚ) (i : ℕ) :
    ∃ best, Best (· > ·) (fun j => Scalar.abs (d.a.get i j)) d.tolerance d.nonbasics best ∧
      d.steepest? i = best.2 :=
  ⟨_, best_foldl (· > ·) _ _ _, rfl⟩

/-- No coefficient of a row is found exactly where all lie within the tolerance. -/
lemma steepest?_eq_none_iff :
    d.steepest? i = none ↔ ∀ j, d.isNonbasic j → |d.a.get i j| ≤ d.tolerance := by
  obtain ⟨best, hbest, heq⟩ := best_steepest? d i
  rw [heq, hbest.eq_none_iff]
  simp [mem_nonbasics, Scalar.abs_eq]

end LinProg.Dictionary
