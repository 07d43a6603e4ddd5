import LinProg.Proofs.Dictionary.WellFormed

/-!
What a dictionary says about the values of its variables, over the exact rationals.

* `Dictionary.Solves`, `Dictionary.valueAt`: a point satisfies every row, and the objective there.
* `Dictionary.fill`: the point that the rows give from the values of the nonbasic variables;
  `solves_fill` and `Solves.fill_eq` say that these are all solutions.
* `Dictionary.ray`: the direction in which one nonbasic variable grows and the others stay;
  `Solves.add_ray` and `valueAt_add_ray` move a solution along it.
* `Dictionary.Equivalent`: the same solutions with the same objective; `Rewrites` adds the shape.
  `LegalPivot.rewrites` says that a legal pivot keeps both; `coord_b_eq_of_equivalent`,
  `get_eq_of_equivalent`, `coord_c_eq_of_equivalent` and `constant_eq_of_equivalent` that among
  equivalent dictionaries the basic variables determine all numbers.
-/

namespace LinProg.Dictionary

open Finset

variable {d d' : Dictionary ℚ} {x y : ℕ → ℚ} {e l i j : ℕ}

/-! ### Rows and objective at a point -/

/-- The sum that a row subtracts from its right-hand side. -/
def rowSum (d : Dictionary ℚ) (i : ℕ) (x : ℕ → ℚ) : ℚ :=
  ∑ j ∈ range d.numVariables, d.a.get i j * x j

/-- The sum that the objective adds to its constant. -/
def costSum (d : Dictionary ℚ) (x : ℕ → ℚ) : ℚ :=
  ∑ j ∈ range d.numVariables, d.c.coord j * x j

/-- A point satisfies every row of a dictionary. -/
def Solves (d : Dictionary ℚ) (x : ℕ → ℚ) : Prop :=
  ∀ i, d.isBasic i → x i = d.b.coord i - d.rowSum i x

/-- The objective of a dictionary at a point. -/
def valueAt (d : Dictionary ℚ) (x : ℕ → ℚ) : ℚ := d.constant + d.costSum x

lemma rowSum_add (d : Dictionary ℚ) (i : ℕ) (x y : ℕ → ℚ) :
    d.rowSum i (x + y) = d.rowSum i x + d.rowSum i y := by
  simp [rowSum, mul_add, sum_add_distrib]

lemma rowSum_smul (d : Dictionary ℚ) (i : ℕ) (t : ℚ) (x : ℕ → ℚ) :
    d.rowSum i (t • x) = t * d.rowSum i x := by
  simp [rowSum, mul_sum, mul_left_comm]

lemma costSum_add (d : Dictionary ℚ) (x y : ℕ → ℚ) :
    d.costSum (x + y) = d.costSum x + d.costSum y := by
  simp [costSum, mul_add, sum_add_distrib]

lemma costSum_smul (d : Dictionary ℚ) (t : ℚ) (x : ℕ → ℚ) :
    d.costSum (t • x) = t * d.costSum x := by
  simp [costSum, mul_sum, mul_left_comm]

/-- A row looks at the nonbasic variables only. -/
lemma rowSum_congr (hd : d.WellFormed) (hi : i < d.numVariables)
    (h : ∀ j, d.isNonbasic j → x j = y j) : d.rowSum i x = d.rowSum i y := by
  refine sum_congr rfl fun j hj => ?_
  rcases isBasic_or_isNonbasic (mem_range.mp hj) with hb | hn
  · rw [hd.get_of_isBasic hi hb, zero_mul, zero_mul]
  · rw [h j hn]

/-- Whether a point satisfies the rows depends on its values at the variables. -/
lemma solves_congr (h : ∀ j < d.numVariables, x j = y j) : d.Solves x ↔ d.Solves y := by
  refine forall₂_congr fun i hi => ?_
  have hsum : d.rowSum i x = d.rowSum i y :=
    sum_congr rfl fun j hj => by rw [h j (mem_range.mp hj)]
  rw [hsum, h i (isBasic_lt hi)]

/-- The objective looks at the nonbasic variables only. -/
lemma costSum_congr (hd : d.WellFormed) (h : ∀ j, d.isNonbasic j → x j = y j) :
    d.costSum x = d.costSum y := by
  refine sum_congr rfl fun j hj => ?_
  rcases isBasic_or_isNonbasic (mem_range.mp hj) with hb | hn
  · rw [hd.coord_c_of_isBasic hb, zero_mul, zero_mul]
  · rw [h j hn]

/-! ### Solutions from the nonbasic variables -/

/-- The point that the rows give from the values of the nonbasic variables. -/
def fill (d : Dictionary ℚ) (v : ℕ → ℚ) (i : ℕ) : ℚ :=
  if d.isBasic i then d.b.coord i - d.rowSum i v else v i

lemma fill_of_isBasic (hi : d.isBasic i) : d.fill x i = d.b.coord i - d.rowSum i x := by
  rw [fill, if_pos hi]

lemma fill_of_isNonbasic (hi : d.isNonbasic i) : d.fill x i = x i := by
  rw [fill, if_neg (not_isBasic_of_isNonbasic hi)]

/-- The values of the nonbasic variables extend to a solution. -/
lemma solves_fill (hd : d.WellFormed) (v : ℕ → ℚ) : d.Solves (d.fill v) := by
  intro i hi
  rw [fill_of_isBasic hi, rowSum_congr hd (isBasic_lt hi) fun j hj => fill_of_isNonbasic hj]

/-- A solution is determined by its values at the nonbasic variables. -/
lemma Solves.fill_eq (hx : d.Solves x) (i : ℕ) : d.fill x i = x i := by
  by_cases hi : d.isBasic i
  · rw [fill_of_isBasic hi, hx i hi]
  · rw [fill, if_neg hi]

lemma valueAt_fill (hd : d.WellFormed) (v : ℕ → ℚ) : d.valueAt (d.fill v) = d.valueAt v := by
  rw [valueAt, valueAt, costSum_congr hd fun j hj => fill_of_isNonbasic hj]

/-- At the basic solution every variable has its right-hand side as its value. -/
lemma fill_zero (hd : d.WellFormed) (hi : i < d.numVariables) : d.fill 0 i = d.b.coord i := by
  rcases isBasic_or_isNonbasic hi with hb | hn
  · simp [fill_of_isBasic hb, rowSum]
  · rw [fill_of_isNonbasic hn, hd.coord_b_of_isNonbasic hn, Pi.zero_apply]

lemma valueAt_zero (d : Dictionary ℚ) : d.valueAt 0 = d.constant := by
  simp [valueAt, costSum]

/-- The constant is the objective of the basic solution. -/
lemma valueAt_fill_zero (hd : d.WellFormed) : d.valueAt (d.fill 0) = d.constant := by
  rw [valueAt_fill hd, valueAt_zero]

lemma coord_c_nonpos (hd : d.WellFormed) (hc : ∀ j, d.isNonbasic j → d.c.coord j ≤ 0)
    (hj : j < d.numVariables) : d.c.coord j ≤ 0 := by
  rcases isBasic_or_isNonbasic hj with hb | hn
  · exact (hd.coord_c_of_isBasic hb).le
  · exact hc j hn

/-- Where no cost is positive, no nonnegative point has a greater objective than the basic
solution. -/
lemma valueAt_le_constant (hd : d.WellFormed) (hc : ∀ j, d.isNonbasic j → d.c.coord j ≤ 0)
    (hx : ∀ i, 0 ≤ x i) : d.valueAt x ≤ d.constant := by
  have hsum : d.costSum x ≤ 0 := sum_nonpos fun j hj =>
    mul_nonpos_of_nonpos_of_nonneg (coord_c_nonpos hd hc (mem_range.mp hj)) (hx j)
  rw [valueAt]
  linarith

/-! ### The direction of a nonbasic variable -/

/-- The direction in which the nonbasic variable `e` grows by one, the other nonbasic variables stay
and the basic ones follow their rows. -/
def ray (d : Dictionary ℚ) (e i : ℕ) : ℚ :=
  if i = e then 1 else if d.isBasic i then -d.a.get i e else 0

lemma ray_of_isBasic (he : d.isNonbasic e) (hi : d.isBasic i) : d.ray e i = -d.a.get i e := by
  rw [ray, if_neg (ne_of_isBasic_of_isNonbasic hi he), if_pos hi]

lemma ray_of_isNonbasic (hi : d.isNonbasic i) : d.ray e i = if i = e then 1 else 0 := by
  rw [ray, if_neg (not_isBasic_of_isNonbasic hi)]

lemma ray_self (d : Dictionary ℚ) (e : ℕ) : d.ray e e = 1 := if_pos rfl

/-- Where no row limits a variable, its direction points nowhere below zero. -/
lemma ray_nonneg (h : ∀ i, d.isBasic i → d.a.get i e ≤ 0) (i : ℕ) : 0 ≤ d.ray e i := by
  rw [ray]
  split_ifs with hie hi
  · exact zero_le_one
  · exact neg_nonneg.mpr (h i hi)
  · exact le_rfl

/-- Along the direction a row changes by the coefficient of the growing variable. -/
lemma rowSum_ray (hd : d.WellFormed) (he : d.isNonbasic e) (hi : i < d.numVariables) :
    d.rowSum i (d.ray e) = d.a.get i e := by
  rw [rowSum, sum_eq_single e]
  · rw [ray_self, mul_one]
  · intro j hj hje
    rcases isBasic_or_isNonbasic (mem_range.mp hj) with hb | hn
    · rw [hd.get_of_isBasic hi hb, zero_mul]
    · rw [ray_of_isNonbasic hn, if_neg hje, mul_zero]
  · exact fun h => absurd (mem_range.mpr (isNonbasic_lt he)) h

/-- Along the direction the objective changes by the cost of the growing variable. -/
lemma costSum_ray (hd : d.WellFormed) (he : d.isNonbasic e) :
    d.costSum (d.ray e) = d.c.coord e := by
  rw [costSum, sum_eq_single e]
  · rw [ray_self, mul_one]
  · intro j hj hje
    rcases isBasic_or_isNonbasic (mem_range.mp hj) with hb | hn
    · rw [hd.coord_c_of_isBasic hb, zero_mul]
    · rw [ray_of_isNonbasic hn, if_neg hje, mul_zero]
  · exact fun h => absurd (mem_range.mpr (isNonbasic_lt he)) h

/-- A solution stays one along the direction of a nonbasic variable. -/
lemma Solves.add_ray (hd : d.WellFormed) (he : d.isNonbasic e) (hx : d.Solves x) (t : ℚ) :
    d.Solves (x + t • d.ray e) := by
  intro i hi
  have hxi := hx i hi
  rw [rowSum_add, rowSum_smul, rowSum_ray hd he (isBasic_lt hi)]
  simp only [Pi.add_apply, Pi.smul_apply, smul_eq_mul, ray_of_isBasic he hi]
  linarith

lemma valueAt_add_ray (hd : d.WellFormed) (he : d.isNonbasic e) (x : ℕ → ℚ) (t : ℚ) :
    d.valueAt (x + t • d.ray e) = d.valueAt x + t * d.c.coord e := by
  rw [valueAt, valueAt, costSum_add, costSum_smul, costSum_ray hd he, add_assoc]

/-! ### The exchange rewrites rows and objective -/

section Exchange

variable (hd : d.WellFormed) (he : d.isNonbasic e) (hl : d.isBasic l) (hp : d.a.get l e ≠ 0)
include hd he hl hp

/-- The row of the entering variable, in one formula: the row of the leaving variable with the two
variables on the other sides, divided by the pivot. -/
lemma solvedCell_eq (hj : j < d.numVariables) :
    d.solvedCell e l j =
      (d.a.get l j + (if j = l then 1 else 0) - (if j = e then d.a.get l e else 0)) /
        d.a.get l e := by
  have hle := ne_of_isBasic_of_isNonbasic hl he
  by_cases hjl : j = l
  · subst hjl
    simp [solvedCell, pivotCell, hle, hd.get_of_isBasic (isBasic_lt hl) hl]
  · by_cases hje : j = e
    · subst hje
      simp [solvedCell, hjl, hd.get_of_isNonbasic he (isNonbasic_lt he)]
    · rcases isBasic_or_isNonbasic hj with hb | hn
      · have hjn := isNonbasic_eq_false hb
        simp [solvedCell, hjl, hje, hjn, hd.get_of_isBasic (isNonbasic_lt he) hb,
          hd.get_of_isBasic (isBasic_lt hl) hb]
      · simp [solvedCell, pivotCell, hjl, hje, hn]

/-- What the row of the entering variable subtracts at a point. -/
lemma sum_solvedCell (x : ℕ → ℚ) :
    ∑ j ∈ range d.numVariables, d.solvedCell e l j * x j =
      (d.rowSum l x + x l - d.a.get l e * x e) / d.a.get l e := by
  have hcell : ∀ j ∈ range d.numVariables, d.solvedCell e l j * x j =
      (d.a.get l j * x j + (if j = l then x l else 0)
        - (if j = e then d.a.get l e * x e else 0)) / d.a.get l e := by
    intro j hj
    rw [solvedCell_eq hd he hl hp (mem_range.mp hj), div_mul_eq_mul_div]
    congr 1
    split_ifs with h1 h2 <;> subst_vars <;> ring
  rw [sum_congr rfl hcell, ← sum_div, sum_sub_distrib, sum_add_distrib, sum_ite_eq', sum_ite_eq',
    if_pos (mem_range.mpr (isBasic_lt hl)), if_pos (mem_range.mpr (isNonbasic_lt he)), rowSum]

/-- A row or objective that loses its multiple `factor` of the entering variable's row. -/
lemma sum_eliminate (r : ℕ → ℚ) (factor : ℚ) (x : ℕ → ℚ) :
    ∑ j ∈ range d.numVariables,
        ((if j = e then 0 else r j) - factor * d.solvedCell e l j) * x j =
      ∑ j ∈ range d.numVariables, r j * x j - r e * x e
        - factor * ((d.rowSum l x + x l - d.a.get l e * x e) / d.a.get l e) := by
  have hcell : ∀ j ∈ range d.numVariables,
      ((if j = e then 0 else r j) - factor * d.solvedCell e l j) * x j =
        r j * x j - (if j = e then r e * x e else 0) - factor * (d.solvedCell e l j * x j) := by
    intro j _
    split_ifs with h
    · subst h
      ring
    · ring
  rw [sum_congr rfl hcell, sum_sub_distrib, sum_sub_distrib, sum_ite_eq',
    if_pos (mem_range.mpr (isNonbasic_lt he)), ← mul_sum, sum_solvedCell hd he hl hp]

lemma exchangedCell_eq (hi : d.isBasic i) (hil : i ≠ l) (hj : j < d.numVariables) :
    d.exchangedCell e l i j =
      (if j = e then 0 else d.a.get i j) - d.a.get i e * d.solvedCell e l j := by
  have hie := ne_of_isBasic_of_isNonbasic hi he
  have hle := ne_of_isBasic_of_isNonbasic hl he
  by_cases hje : j = e
  · subst hje
    simp [exchangedCell, hil, hie, hi, solvedCell_eq hd he hl hp hj, hle.symm]
  · by_cases hjl : j = l
    · subst hjl
      simp [exchangedCell, hil, hie, hi, hje, hd.get_of_isBasic (isBasic_lt hi) hl]
    · rcases isBasic_or_isNonbasic hj with hb | hn
      · have hjn := isNonbasic_eq_false hb
        simp [exchangedCell, hil, hie, hi, hje, hjl, hjn, solvedCell_eq hd he hl hp hj,
          hd.get_of_isBasic (isBasic_lt hl) hb]
      · simp [exchangedCell, hil, hie, hi, hje, hjl, hn]

lemma exchangedCost_eq (hj : j < d.numVariables) :
    d.exchangedCost e l j =
      (if j = e then 0 else d.c.coord j) - d.c.coord e * d.solvedCell e l j := by
  have hle := ne_of_isBasic_of_isNonbasic hl he
  by_cases hje : j = e
  · subst hje
    simp [exchangedCost, solvedCell_eq hd he hl hp hj, hle.symm]
  · by_cases hjl : j = l
    · subst hjl
      simp [exchangedCost, hje, hd.coord_c_of_isBasic hl]
    · rcases isBasic_or_isNonbasic hj with hb | hn
      · have hjn := isNonbasic_eq_false hb
        simp [exchangedCost, hje, hjl, hjn, solvedCell_eq hd he hl hp hj,
          hd.get_of_isBasic (isBasic_lt hl) hb]
      · simp [exchangedCost, hje, hjl, hn]

lemma rowSum_exchange_entering (x : ℕ → ℚ) :
    (d.exchange e l).rowSum e x =
      (d.rowSum l x + x l - d.a.get l e * x e) / d.a.get l e := by
  have hel := (ne_of_isBasic_of_isNonbasic hl he).symm
  rw [rowSum, numVariables_exchange, ← sum_solvedCell hd he hl hp x]
  refine sum_congr rfl fun j hj => ?_
  rw [get_exchange d e l (isNonbasic_lt he) (mem_range.mp hj), exchangedCell, if_neg hel,
    if_pos rfl]

lemma rowSum_exchange_of_ne (hi : d.isBasic i) (hil : i ≠ l) (x : ℕ → ℚ) :
    (d.exchange e l).rowSum i x = d.rowSum i x - d.a.get i e * x e
      - d.a.get i e * ((d.rowSum l x + x l - d.a.get l e * x e) / d.a.get l e) := by
  rw [rowSum, numVariables_exchange, rowSum, ← sum_eliminate hd he hl hp]
  refine sum_congr rfl fun j hj => ?_
  rw [get_exchange d e l (isBasic_lt hi) (mem_range.mp hj),
    exchangedCell_eq hd he hl hp hi hil (mem_range.mp hj)]

lemma costSum_exchange (x : ℕ → ℚ) :
    (d.exchange e l).costSum x = d.costSum x - d.c.coord e * x e
      - d.c.coord e * ((d.rowSum l x + x l - d.a.get l e * x e) / d.a.get l e) := by
  rw [costSum, numVariables_exchange, costSum, ← sum_eliminate hd he hl hp]
  refine sum_congr rfl fun j hj => ?_
  rw [coord_c_exchange d e l (mem_range.mp hj), exchangedCost_eq hd he hl hp (mem_range.mp hj)]

omit hd hp in
lemma coord_b_exchange_entering :
    (d.exchange e l).b.coord e = d.b.coord l / d.a.get l e := by
  have hel := (ne_of_isBasic_of_isNonbasic hl he).symm
  rw [coord_b_exchange d e l (isNonbasic_lt he), exchangedRhs, if_neg hel, if_pos rfl]
  rfl

omit hd hl hp in
lemma coord_b_exchange_of_ne (hi : d.isBasic i) (hil : i ≠ l) :
    (d.exchange e l).b.coord i =
      d.b.coord i - d.a.get i e * (d.b.coord l / d.a.get l e) := by
  have hie := ne_of_isBasic_of_isNonbasic hi he
  rw [coord_b_exchange d e l (isBasic_lt hi), exchangedRhs, if_neg hil, if_neg hie, if_pos hi]
  rfl

/-- The row of the entering variable says after an exchange what the row of the leaving variable
said before. -/
lemma entering_row_iff (x : ℕ → ℚ) :
    x e = (d.exchange e l).b.coord e - (d.exchange e l).rowSum e x ↔
      x l = d.b.coord l - d.rowSum l x := by
  rw [coord_b_exchange_entering he hl, rowSum_exchange_entering hd he hl hp]
  constructor
  · intro h
    field_simp at h
    linarith
  · intro h
    field_simp
    linarith

/-- Where the leaving variable's row holds, every other row says after an exchange what it said
before. -/
lemma other_row_iff (hi : d.isBasic i) (hil : i ≠ l) (hxl : x l = d.b.coord l - d.rowSum l x) :
    x i = (d.exchange e l).b.coord i - (d.exchange e l).rowSum i x ↔
      x i = d.b.coord i - d.rowSum i x := by
  have heq : (d.exchange e l).b.coord i - (d.exchange e l).rowSum i x =
      d.b.coord i - d.rowSum i x := by
    rw [coord_b_exchange_of_ne he hi hil, rowSum_exchange_of_ne hd he hl hp hi hil, hxl]
    field_simp
    ring
  rw [heq]

/-- An exchange keeps the solutions. -/
theorem solves_exchange_iff (x : ℕ → ℚ) : (d.exchange e l).Solves x ↔ d.Solves x := by
  constructor
  · intro h
    have hxl := (entering_row_iff hd he hl hp x).mp (h e ((isBasic_exchange he hl).mpr (.inl rfl)))
    intro i hi
    by_cases hil : i = l
    · rw [hil]
      exact hxl
    · exact (other_row_iff hd he hl hp hi hil hxl).mp
        (h i ((isBasic_exchange he hl).mpr (.inr ⟨hi, hil⟩)))
  · intro h i hi
    obtain rfl | ⟨hi, hil⟩ := (isBasic_exchange he hl).mp hi
    · exact (entering_row_iff hd he hl hp x).mpr (h l hl)
    · exact (other_row_iff hd he hl hp hi hil (h l hl)).mpr (h i hi)

/-- An exchange keeps the objective at every solution. -/
theorem valueAt_exchange (hx : d.Solves x) : (d.exchange e l).valueAt x = d.valueAt x := by
  have hconstant : (d.exchange e l).constant =
      d.constant + d.c.coord e * (d.b.coord l / d.a.get l e) := rfl
  rw [valueAt, valueAt, costSum_exchange hd he hl hp, hconstant, hx l hl]
  field_simp
  ring

end Exchange

/-! ### Equivalent dictionaries -/

/-- Two dictionaries over the same variables have the same solutions, with the same objective. -/
structure Equivalent (d d' : Dictionary ℚ) : Prop where
  numVariables_eq : d'.numVariables = d.numVariables
  solves_iff : ∀ x, d'.Solves x ↔ d.Solves x
  valueAt_eq : ∀ {x}, d.Solves x → d'.valueAt x = d.valueAt x

lemma Equivalent.refl (d : Dictionary ℚ) : Equivalent d d :=
  ⟨rfl, fun _ => Iff.rfl, fun _ => rfl⟩

lemma Equivalent.symm (h : Equivalent d d') : Equivalent d' d :=
  ⟨h.numVariables_eq.symm, fun x => (h.solves_iff x).symm, fun {x} hx =>
    (h.valueAt_eq ((h.solves_iff x).mp hx)).symm⟩

lemma Equivalent.trans {d'' : Dictionary ℚ} (h : Equivalent d d') (h' : Equivalent d' d'') :
    Equivalent d d'' :=
  ⟨h'.numVariables_eq.trans h.numVariables_eq, fun x => (h'.solves_iff x).trans (h.solves_iff x),
    fun {x} hx => (h'.valueAt_eq ((h.solves_iff x).mpr hx)).trans (h.valueAt_eq hx)⟩

lemma LegalPivot.coefficient_ne_zero (h : d.LegalPivot e l) : d.a.get l e ≠ 0 := by
  simpa using h.ne_zero

/-- A legal pivot is a rewriting. -/
theorem LegalPivot.equivalent (hd : d.WellFormed) (h : d.LegalPivot e l) :
    Equivalent d (d.exchange e l) :=
  ⟨numVariables_exchange d e l,
    solves_exchange_iff hd h.isNonbasic h.isBasic h.coefficient_ne_zero,
    valueAt_exchange hd h.isNonbasic h.isBasic h.coefficient_ne_zero⟩

/-- Along a direction of one dictionary, the objective of an equivalent one changes alike. -/
lemma Equivalent.costSum_ray (h : Equivalent d d') (hd : d.WellFormed) (he : d.isNonbasic e) :
    d'.costSum (d.ray e) = d.c.coord e := by
  have hx := solves_fill hd 0
  have h0 := h.valueAt_eq hx
  have h1 := h.valueAt_eq (hx.add_ray hd he 1)
  rw [valueAt_add_ray hd he, ← h0, valueAt, valueAt, costSum_add, costSum_smul] at h1
  linarith

/-- Along a direction of one dictionary, the rows of an equivalent one are kept. -/
lemma Equivalent.rowSum_ray (h : Equivalent d d') (hd : d.WellFormed) (he : d.isNonbasic e)
    (hi : d'.isBasic i) : d'.rowSum i (d.ray e) = -d.ray e i := by
  have hx := solves_fill hd 0
  have h0 := (h.solves_iff _).mpr hx i hi
  have h1 := (h.solves_iff _).mpr (hx.add_ray hd he 1) i hi
  rw [one_smul, rowSum_add, Pi.add_apply, h0] at h1
  linarith

/-! ### Rewritings -/

/-- The dictionary `d'` has the shape of one and says what `d` says, for a program of the same
size. -/
structure Rewrites (d d' : Dictionary ℚ) : Prop where
  wellFormed : d'.WellFormed
  equivalent : Equivalent d d'
  numRows_eq : d'.numRows = d.numRows
  numColumns_eq : d'.numColumns = d.numColumns
  tolerance_eq : d'.tolerance = d.tolerance

lemma Rewrites.refl (hd : d.WellFormed) : Rewrites d d := ⟨hd, .refl d, rfl, rfl, rfl⟩

lemma Rewrites.trans {d'' : Dictionary ℚ} (h : Rewrites d d') (h' : Rewrites d' d'') :
    Rewrites d d'' :=
  ⟨h'.wellFormed, h.equivalent.trans h'.equivalent, h'.numRows_eq.trans h.numRows_eq,
    h'.numColumns_eq.trans h.numColumns_eq, h'.tolerance_eq.trans h.tolerance_eq⟩

/-- A legal pivot leads to a rewriting. -/
lemma LegalPivot.rewrites (hd : d.WellFormed) (h : d.LegalPivot e l) :
    Rewrites d (d.exchange e l) :=
  ⟨hd.exchange h.isNonbasic h.isBasic, h.equivalent hd, rfl, rfl, rfl⟩

/-! ### The basic variables determine the dictionary -/

section Unique

variable (hd : d.WellFormed) (hd' : d'.WellFormed) (h : Equivalent d d')
  (hroles : ∀ j, d'.isBasic j ↔ d.isBasic j)
include hd hd' h hroles

omit hd hd' in
lemma isNonbasic_of_isNonbasic (hj : d'.isNonbasic j) : d.isNonbasic j := by
  have hlt := isNonbasic_lt hj
  rw [h.numVariables_eq] at hlt
  rw [isNonbasic_iff_not_isBasic hlt, ← hroles]
  exact not_isBasic_of_isNonbasic hj

/-- From the same values of the nonbasic variables both dictionaries give the same point. -/
lemma fill_eq_of_equivalent (v : ℕ → ℚ) (hi : i < d.numVariables) : d'.fill v i = d.fill v i := by
  have hsolves : d'.Solves (d.fill v) := (h.solves_iff _).mpr (solves_fill hd v)
  rw [← hsolves.fill_eq i]
  rcases isBasic_or_isNonbasic (d := d') (h.numVariables_eq ▸ hi) with hb | hn
  · rw [fill_of_isBasic hb, fill_of_isBasic hb]
    congr 1
    refine rowSum_congr hd' (isBasic_lt hb) fun j hj => ?_
    rw [fill_of_isNonbasic (isNonbasic_of_isNonbasic h hroles hj)]
  · rw [fill_of_isNonbasic hn, fill_of_isNonbasic hn,
      fill_of_isNonbasic (isNonbasic_of_isNonbasic h hroles hn)]

theorem coord_b_eq_of_equivalent (hi : i < d.numVariables) : d'.b.coord i = d.b.coord i := by
  rw [← fill_zero hd' (h.numVariables_eq ▸ hi), ← fill_zero hd hi,
    fill_eq_of_equivalent hd hd' h hroles 0 hi]

theorem constant_eq_of_equivalent : d'.constant = d.constant := by
  have hvalue := h.valueAt_eq (solves_fill hd 0)
  rw [valueAt_fill hd, valueAt_zero] at hvalue
  rw [← hvalue, valueAt, costSum_congr hd' (y := 0), ← valueAt, valueAt_zero]
  intro j hj
  exact fill_of_isNonbasic (isNonbasic_of_isNonbasic h hroles hj)

omit hd h hd' hroles in
lemma rowSum_single (hj : j < d.numVariables) : d.rowSum i (Pi.single j 1) = d.a.get i j := by
  simp [rowSum, Pi.single_apply, hj]

omit hd h hd' hroles in
lemma costSum_single (hj : j < d.numVariables) : d.costSum (Pi.single j 1) = d.c.coord j := by
  simp [costSum, Pi.single_apply, hj]

theorem get_eq_of_equivalent (hi : i < d.numVariables) (hj : j < d.numVariables) :
    d'.a.get i j = d.a.get i j := by
  have hi' : i < d'.numVariables := h.numVariables_eq ▸ hi
  have hj' : j < d'.numVariables := h.numVariables_eq ▸ hj
  rcases isBasic_or_isNonbasic hi' with hb | hn
  · have hfill := fill_eq_of_equivalent hd hd' h hroles (Pi.single j 1) hi
    rw [fill_of_isBasic hb, fill_of_isBasic ((hroles i).mp hb), rowSum_single hj, rowSum_single hj',
      coord_b_eq_of_equivalent hd hd' h hroles hi] at hfill
    linarith
  · rw [hd'.get_of_isNonbasic hn hj',
      hd.get_of_isNonbasic (isNonbasic_of_isNonbasic h hroles hn) hj]

theorem coord_c_eq_of_equivalent (hj : j < d.numVariables) : d'.c.coord j = d.c.coord j := by
  have hj' : j < d'.numVariables := h.numVariables_eq ▸ hj
  have hvalue := h.valueAt_eq (solves_fill hd (Pi.single j 1))
  rw [valueAt_fill hd, valueAt, valueAt, constant_eq_of_equivalent hd hd' h hroles,
    costSum_single hj, costSum_congr hd' (y := Pi.single j 1), costSum_single hj'] at hvalue
  · linarith
  · intro k hk
    exact fill_of_isNonbasic (isNonbasic_of_isNonbasic h hroles hk)

end Unique

end LinProg.Dictionary
