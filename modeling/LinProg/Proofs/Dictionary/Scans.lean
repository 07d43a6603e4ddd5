import LinProg.Proofs.Dictionary.WellFormed
import LinProg.Proofs.ZeroTests

/-!
What the scans of the engine find, in any arithmetic that tells other numbers from zero.

* `Chained`, `chained_foldl`: the member that a scan from a threshold finds, with the chain of
  comparisons that led to it.
* `isBasic_of_lowestRow?_eq_some`, `of_steepest?_eq_some_chain`, `of_entering?_eq_some`,
  `of_tightest?_eq_some`: the variables that are found have the role that is looked for.
* `legalPivot_of_choice_eq`, `legalPivot_of_steepest?_eq_some`: the pivots on them are legal.
-/

namespace LinProg.Dictionary

variable {α : Type} [Scalar α] {d : Dictionary α} {e l i j k : ℕ}

/-! ### The scans of phase one -/

omit [Scalar α] in
/-- The answer of a scan that starts from a threshold: either it is left at the threshold, or a
chain of comparisons has led from there to the key of the member that is found. -/
def Chained (bettered : α → α → Prop) (key : ℕ → α) (threshold : α) (xs : List ℕ) :
    α × Option ℕ → Prop
  | (q, none) => q = threshold
  | (q, some k) => k ∈ xs ∧ q = key k ∧ Relation.TransGen bettered threshold q

omit [Scalar α] in
/-- A scan that goes on to each better key follows such a chain. -/
lemma chained_foldl (bettered : α → α → Prop) [DecidableRel bettered] (key : ℕ → α)
    (threshold : α) (xs : List ℕ) :
    Chained bettered key threshold xs (xs.foldl
      (fun best i => if bettered best.1 (key i) then (key i, some i) else best)
      (threshold, none)) := by
  refine List.foldlRecOn (motive := Chained bettered key threshold xs) xs _ rfl ?_
  intro best hbest i hi
  split_ifs with hbetter
  · match best, hbest with
    | (_, none), rfl => exact ⟨hi, rfl, .single hbetter⟩
    | (_, some k), ⟨_, _, hchain⟩ => exact ⟨hi, rfl, hchain.tail hbetter⟩
  · exact hbest

omit [Scalar α] in
lemma Chained.of_eq_some {bettered : α → α → Prop} {key : ℕ → α} {threshold : α} {xs : List ℕ}
    {best : α × Option ℕ} (h : Chained bettered key threshold xs best) (hk : best.2 = some k) :
    k ∈ xs ∧ Relation.TransGen bettered threshold (key k) := by
  match best, h with
  | (_, none), _ => exact absurd hk (by simp)
  | (_, some k'), ⟨hmem, rfl, hchain⟩ =>
      obtain rfl : k' = k := Option.some.inj hk
      exact ⟨hmem, hchain⟩

/-- The lowest row is that of a basic variable. -/
lemma isBasic_of_lowestRow?_eq_some (h : d.lowestRow? = some k) : d.isBasic k :=
  mem_basics.mp ((chained_foldl (fun lowest x => x < lowest) d.b.coord 0 d.basics).of_eq_some h).1

/-- The coefficient that is found in a row is that of a nonbasic variable, and its magnitude exceeds
the tolerance by the chain of those that led the scan before it. -/
lemma of_steepest?_eq_some_chain (h : d.steepest? i = some j) :
    d.isNonbasic j ∧ Relation.TransGen (· < ·) d.tolerance (Scalar.abs (d.a.get i j)) := by
  obtain ⟨hj, hchain⟩ := (chained_foldl (· < ·) (fun j => Scalar.abs (d.a.get i j)) d.tolerance
    d.nonbasics).of_eq_some h
  exact ⟨mem_nonbasics.mp hj, hchain⟩

/-! ### The scans of the loop -/

lemma of_entering?_eq_some (h : d.entering? = some e) : d.isNonbasic e ∧ 0 < d.c.coord e :=
  ⟨mem_nonbasics.mp (List.mem_of_find?_eq_some h), by simpa using List.find?_some h⟩

/-- The row that limits a variable most is that of a basic variable, with a positive coefficient. -/
lemma of_tightest?_eq_some {q : α} (h : d.tightest? e = some (l, q)) :
    d.isBasic l ∧ 0 < d.a.get l e := by
  have hmem : ∀ best : ℕ × α, d.tightest? e = some best →
      best.1 ∈ d.basics.filter fun i => decide (0 < d.a.get i e) := by
    refine List.foldlRecOn (motive := fun best? : Option (ℕ × α) => ∀ best, best? = some best →
      best.1 ∈ d.basics.filter fun i => decide (0 < d.a.get i e)) _ _ (by simp) ?_
    intro best? hbest? i hi best hbest
    split_ifs at hbest
    · obtain rfl := Option.some.inj hbest
      exact hi
    · exact hbest? best hbest
  simpa [mem_basics] using hmem _ h

/-! ### Legal pivots -/

variable [Scalar.TellsZero α]

/-- A pivot that is chosen is legal. -/
lemma legalPivot_of_choice_eq (h : d.choice = .pivot e l) : d.LegalPivot e l := by
  rw [choice] at h
  cases henter : d.entering? with
  | none => simp [henter] at h
  | some e' =>
      cases htight : d.tightest? e' with
      | none => simp [henter, htight] at h
      | some best =>
          simp only [henter, htight, Choice.pivot.injEq] at h
          obtain ⟨rfl, rfl⟩ := h
          obtain ⟨hl, hpos⟩ := of_tightest?_eq_some htight
          exact ⟨(of_entering?_eq_some henter).1, hl, Scalar.TellsZero.ne_zero_of_pos hpos⟩

/-- A coefficient that is found in the row of a basic variable, with a tolerance that is not
negative, is one to pivot on. -/
lemma legalPivot_of_steepest?_eq_some (ht : 0 ≤ d.tolerance) (hi : d.isBasic i)
    (h : d.steepest? i = some j) : d.LegalPivot j i := by
  obtain ⟨hj, hchain⟩ := of_steepest?_eq_some_chain h
  exact ⟨hj, hi, Scalar.TellsZero.ne_zero_of_lt_abs ht hchain⟩

end LinProg.Dictionary
