import LinProg.Proofs.StandardForm.Meaning

/-!
The canonical form of a model in closed form, over the exact rationals.

* `Terms.weightOf`, `Terms.value_eq_sum`: the total weight of a variable in a sum, and the value of
  the sum by the total weights.
* `Substitution.base`, `Substitution.slope`: the constant and the coefficients of an expression.
* `ColumnMap.expand_sub_eq`, `ColumnMap.expand_add_eq`, `ofModel_eq_closed`: a sum becomes a row
  that depends on its total weights only, and so the rows of a model do.
* `RowOrigin`, `rowOrigins`: what the rows are the rows of, in order.
* `Spells`, `RowOrigin.Describes`, `SpelledOut`: every cell, right-hand side and cost by the kind of
  the variable, its bounds and its total weight.
* `ofModel_spelledOut`: the canonical form is spelled out so.
-/

namespace LinProg

open Finset

/-! ### Total weights -/

namespace Terms

variable {terms : Terms ℚ} {count : ℕ}

/-- The total weight of a variable over all of its terms. -/
def weightOf (terms : Terms ℚ) (i : ℕ) : ℚ :=
  ((terms.filter fun term => term.1.index = i).map Prod.snd).sum

lemma weightOf_cons (id : VariableId) (weight : ℚ) (terms : Terms ℚ) (i : ℕ) :
    weightOf ((id, weight) :: terms) i =
      (if id.index = i then weight else 0) + weightOf terms i := by
  rw [weightOf, weightOf, List.filter_cons]
  by_cases h : id.index = i <;> simp [h]

/-- A variable that does not occur has no weight. -/
lemma weightOf_eq_zero {i : ℕ} (h : ∀ term ∈ terms, term.1.index ≠ i) : terms.weightOf i = 0 := by
  have hnone : (terms.filter fun term => term.1.index = i) = [] := by
    simpa [List.filter_eq_nil_iff] using h
  rw [weightOf, hnone, List.map_nil, List.sum_nil]

/-- The value of a sum depends on the total weights only. -/
theorem value_eq_sum (h : terms.Known count) (x : ℕ → ℚ) :
    terms.value x = ∑ i ∈ range count, terms.weightOf i * x i := by
  induction terms with
  | nil => simp [weightOf]
  | cons term terms ih =>
      obtain ⟨id, weight⟩ := term
      have hid : id.index ∈ range count := mem_range.mpr (h (id, weight) (by simp))
      have hterms : Known terms count := fun term hterm => h term (by simp [hterm])
      have hfirst : ∑ i ∈ range count, (if id.index = i then weight else 0) * x i =
          weight * x id.index := by
        simp only [ite_mul, zero_mul]
        rw [sum_ite_eq, if_pos hid]
      simp only [weightOf_cons, add_mul]
      rw [value_cons, ih hterms, sum_add_distrib, hfirst]

/-- The second sum is over known variables and gives each of them the total weight that it has in
the first one: its terms are those of the first one in another order, merged or split up. -/
structure Regroups (count : ℕ) (terms terms' : Terms ℚ) : Prop where
  known : terms'.Known count
  weightOf_eq : ∀ i, terms'.weightOf i = terms.weightOf i

end Terms

/-- The second constraint is the first one with its terms regrouped. -/
structure Constraint.Regroups (count : ℕ) (c c' : Constraint ℚ) : Prop where
  relation_eq : c'.relation = c.relation
  rhs_eq : c'.rhs = c.rhs
  terms : Terms.Regroups count c.terms c'.terms

/-! ### Constants and coefficients -/

namespace Substitution

variable {s : Substitution ℚ} {j : ℕ}

/-- The constant of the expression: the bound that it starts from, if it has one. -/
def base : Substitution ℚ → ℚ
  | shifted lower _ => lower
  | reflected upper _ => upper
  | split .. => 0

/-- The coefficient of a column in the expression. -/
def slope (s : Substitution ℚ) (j : ℕ) : ℚ :=
  match s with
  | shifted _ column => if j = column then 1 else 0
  | reflected _ column => if j = column then -1 else 0
  | split positive negative => (if j = positive then 1 else 0) - if j = negative then 1 else 0

lemma eval_zero (s : Substitution ℚ) : s.eval 0 = s.base := by
  cases s <;> simp [eval, base]

lemma eval_single (s : Substitution ℚ) (j : ℕ) : s.eval (Pi.single j 1) = s.base + s.slope j := by
  cases s with
  | shifted lower column => simp [eval, base, slope, Pi.single_apply, eq_comm]
  | reflected upper column =>
      simp only [eval, base, slope, Pi.single_apply, eq_comm (a := column)]
      split_ifs <;> ring
  | split positive negative => simp [eval, base, slope, Pi.single_apply, eq_comm]

lemma slope_eq_zero (h : j ∉ s.columns) : s.slope j = 0 := by
  cases s with
  | shifted lower column => simpa [slope] using h
  | reflected upper column => simpa [slope] using h
  | split positive negative =>
      obtain ⟨hpositive, hnegative⟩ : j ≠ positive ∧ j ≠ negative := by simpa using h
      simp [slope, hpositive, hnegative]

end Substitution

/-! ### Rows -/

/-- The value of a row at a unit point is the cell. -/
lemma Coords.dot_single {row : Coords ℚ} {j : ℕ} (hj : j < row.size) :
    row.dot (Pi.single j 1) = row.coord j := by
  simp only [dot, Pi.single_apply, mul_ite, mul_one, mul_zero]
  rw [sum_ite_eq', if_pos (mem_range.mpr hj)]

namespace ColumnMap

variable {map : ColumnMap ℚ} {terms terms' : Terms ℚ} {sign constant : ℚ} {cells : Coords ℚ} {j : ℕ}

/-- The constant that a sum leaves behind: each variable at its bound, by its total weight. -/
def baseOf (map : ColumnMap ℚ) (terms : Terms ℚ) : ℚ :=
  ∑ i ∈ range map.substitutions.length,
    terms.weightOf i * (map.substitutions[i]?.map Substitution.base).getD 0

/-- The cell of a sum in a column. -/
def slopeOf (map : ColumnMap ℚ) (terms : Terms ℚ) (j : ℕ) : ℚ :=
  ∑ i ∈ range map.substitutions.length,
    terms.weightOf i * (map.substitutions[i]?.map (·.slope j)).getD 0

/-- The cells of a sum with a sign. -/
def cellsOf (map : ColumnMap ℚ) (sign : ℚ) (terms : Terms ℚ) : Coords ℚ :=
  Coords.tabulate map.numColumns fun j => sign * map.slopeOf terms j

lemma coord_cellsOf (hj : j < map.numColumns) :
    (map.cellsOf sign terms).coord j = sign * map.slopeOf terms j := by
  rw [cellsOf, Coords.coord_tabulate, if_pos hj]

section Known

variable (hknown : terms.Known map.substitutions.length)
include hknown

lemma value_assignment_zero : terms.value (map.assignment 0) = map.baseOf terms := by
  rw [Terms.value_eq_sum hknown, baseOf]
  refine sum_congr rfl fun i _ => ?_
  cases hs : map.substitutions[i]? <;> simp [assignment, hs, Substitution.eval_zero]

lemma value_assignment_single (j : ℕ) :
    terms.value (map.assignment (Pi.single j 1)) = map.baseOf terms + map.slopeOf terms j := by
  rw [Terms.value_eq_sum hknown, baseOf, slopeOf, ← sum_add_distrib]
  refine sum_congr rfl fun i _ => ?_
  cases hs : map.substitutions[i]? <;> simp [assignment, hs, Substitution.eval_single, mul_add]

/-- A row with a constant that has the value of a sum at every point is the row of the sum. -/
lemma eq_cellsOf (hsize : cells.size = map.numColumns)
    (hvalue : ∀ y, cells.dot y + constant = sign * terms.value (map.assignment y)) :
    cells = map.cellsOf sign terms ∧ constant = sign * map.baseOf terms := by
  have hconstant : constant = sign * map.baseOf terms := by
    have hzero : cells.dot 0 = 0 := by simp [Coords.dot]
    have h := hvalue 0
    rwa [hzero, zero_add, value_assignment_zero hknown] at h
  refine ⟨Coords.ext_coord (by simp [cellsOf, hsize]) fun j hj => ?_, hconstant⟩
  have h := hvalue (Pi.single j 1)
  rw [Coords.dot_single hj, value_assignment_single hknown, hconstant] at h
  rw [coord_cellsOf (hsize ▸ hj)]
  linarith

variable (hcolumns : ∀ s ∈ map.substitutions, ∀ c ∈ s.columns, c < map.numColumns)
include hcolumns

/-- A sum whose constants are moved to the right-hand side. -/
theorem expand_sub_eq (sign rhs : ℚ) :
    map.expand sign (· - ·) terms (Coords.zeros map.numColumns, rhs) =
      .ok (map.cellsOf sign terms, rhs - sign * map.baseOf terms) := by
  obtain ⟨⟨cells, rhs'⟩, hexpand, hsize, hvalue⟩ := exists_expand_sub hcolumns hknown sign rhs
  have hsum : ∀ y, cells.dot y + (rhs - rhs') = sign * terms.value (map.assignment y) := by
    intro y
    have := hvalue y
    linarith
  obtain ⟨rfl, hconstant⟩ := eq_cellsOf hknown hsize hsum
  rw [hexpand, ← hconstant, sub_sub_cancel]

/-- A sum whose constants are added up. -/
theorem expand_add_eq (sign : ℚ) :
    map.expand sign (· + ·) terms (Coords.zeros map.numColumns, 0) =
      .ok (map.cellsOf sign terms, sign * map.baseOf terms) := by
  obtain ⟨⟨cells, constant⟩, hexpand, hsize, hvalue⟩ := exists_expand_add hcolumns hknown sign
  obtain ⟨rfl, rfl⟩ := eq_cellsOf hknown hsize hvalue
  exact hexpand

end Known

section Regroups

variable {count : ℕ} (h : Terms.Regroups count terms terms')
include h

/-- Regrouped terms have the same cells. -/
lemma cellsOf_eq_of_regroups : map.cellsOf sign terms' = map.cellsOf sign terms := by
  have hweights : terms'.weightOf = terms.weightOf := funext h.weightOf_eq
  rw [cellsOf, cellsOf, show map.slopeOf terms' = map.slopeOf terms from
    funext fun j => by rw [slopeOf, slopeOf, hweights]]

/-- Regrouped terms leave the same constant behind. -/
lemma baseOf_eq_of_regroups : map.baseOf terms' = map.baseOf terms := by
  have hweights : terms'.weightOf = terms.weightOf := funext h.weightOf_eq
  rw [baseOf, baseOf, hweights]

end Regroups

end ColumnMap

namespace StandardForm

variable {vars : List (Variable ℚ)} {constraints constraints' : List (Constraint ℚ)}
  {objective objective' : Objective ℚ}

/-- A row of a constraint, with one of its signs. -/
def closedRow (map : ColumnMap ℚ) (c : Constraint ℚ) (sign : ℚ) : Coords ℚ × ℚ :=
  (map.cellsOf sign c.terms, sign * (c.rhs - map.baseOf c.terms))

/-- The rows of a constraint on known variables, one for each sign. -/
lemma constraintRows_eq {map : ColumnMap ℚ} {c : Constraint ℚ}
    (hcolumns : ∀ s ∈ map.substitutions, ∀ k ∈ s.columns, k < map.numColumns)
    (hknown : c.terms.Known map.substitutions.length) :
    constraintRows map c = .ok (c.relation.signs.map (closedRow map c)) := by
  refine mapM_eq_ok fun sign _ => ?_
  rw [ColumnMap.expand_sub_eq hknown hcolumns, closedRow, mul_sub]

/-- The canonical form is made of such rows. -/
theorem ofModel_eq_closed (hconstraints : ∀ c ∈ constraints, c.terms.Known vars.length)
    (hobjective : objective.terms.Known vars.length) :
    let map := ColumnMap.ofVariables vars
    ofModel vars constraints (some objective) =
      .ok (ofRows (boundRows vars map ++
          constraints.flatMap fun c => c.relation.signs.map (closedRow map c))
        (map.cellsOf objective.goal.sign objective.terms)
        (objective.goal.sign * map.baseOf objective.terms), map) := by
  intro map
  have hlength : map.substitutions.length = vars.length :=
    ColumnMap.length_fst_allot vars 0
  have hcolumns : ∀ s ∈ map.substitutions, ∀ c ∈ s.columns, c < map.numColumns :=
    fun s hs c hc => ColumnMap.lt_numColumns hs hc
  rw [← hlength] at hconstraints hobjective
  have hrows : constraints.mapM (constraintRows map) =
      .ok (constraints.map fun c => c.relation.signs.map (closedRow map c)) :=
    mapM_eq_ok fun c hc => constraintRows_eq hcolumns (hconstraints c hc)
  have hcosts := ColumnMap.expand_add_eq hobjective hcolumns objective.goal.sign
  simp only [ofModel, map, hrows, hcosts, bind, Except.bind, pure, Except.pure]
  rw [List.flatMap_def]

lemma closedRow_eq_of_regroups {map : ColumnMap ℚ} {count : ℕ} {c c' : Constraint ℚ}
    (h : c.Regroups count c') : closedRow map c' = closedRow map c := by
  funext sign
  rw [closedRow, closedRow, h.rhs_eq, ColumnMap.cellsOf_eq_of_regroups h.terms,
    ColumnMap.baseOf_eq_of_regroups h.terms]

/-- Regrouped constraints have the same rows. -/
lemma flatMap_closedRow_eq {map : ColumnMap ℚ} {count : ℕ}
    (h : List.Forall₂ (Constraint.Regroups count) constraints constraints') :
    (constraints'.flatMap fun c => c.relation.signs.map (closedRow map c)) =
      constraints.flatMap fun c => c.relation.signs.map (closedRow map c) := by
  induction h with
  | nil => rfl
  | cons hc _ ih =>
      rw [List.flatMap_cons, List.flatMap_cons, ih, hc.relation_eq, closedRow_eq_of_regroups hc]

end StandardForm

/-! ### Every cell -/

/-- The cells at the columns of a variable, which contributes a given weight. -/
def Substitution.Carries (s : Substitution ℚ) (weight : ℚ) (cells : ℕ → ℚ) : Prop :=
  match s with
  | shifted _ column => cells column = weight
  | reflected _ column => cells column = -weight
  | split positive negative => cells positive = weight ∧ cells negative = -weight

/-- The cells spell out a sum with a sign: those of each variable carry its total weight, and those
of variables that do not occur are zero. -/
structure ColumnMap.Spells (map : ColumnMap ℚ) (sign : ℚ) (terms : Terms ℚ) (cells : ℕ → ℚ) :
    Prop where
  carries : ∀ i (s : Substitution ℚ), map.substitutions[i]? = some s →
    s.Carries (sign * terms.weightOf i) cells
  absent : ∀ i (s : Substitution ℚ), map.substitutions[i]? = some s →
    (∀ term ∈ terms, term.1.index ≠ i) → ∀ c ∈ s.columns, cells c = 0

lemma Substitution.Carries.congr {s : Substitution ℚ} {weight : ℚ} {cells cells' : ℕ → ℚ}
    (h : s.Carries weight cells) (hsame : ∀ c ∈ s.columns, cells' c = cells c) :
    s.Carries weight cells' := by
  cases s with
  | shifted lower column => exact (hsame column (by simp)).trans h
  | reflected upper column => exact (hsame column (by simp)).trans h
  | split positive negative =>
      exact ⟨(hsame positive (by simp)).trans h.1,
        (hsame negative (by simp)).trans h.2⟩

namespace ColumnMap

variable {vars : List (Variable ℚ)} {s : Substitution ℚ} {terms : Terms ℚ} {sign : ℚ} {i j : ℕ}

/-- In a column of a variable, no other variable has a coefficient. -/
lemma slopeOf_eq (hs : (ofVariables vars).substitutions[i]? = some s) (hj : j ∈ s.columns) :
    (ofVariables vars).slopeOf terms j = terms.weightOf i * s.slope j := by
  have hi : i < (ofVariables vars).substitutions.length := (List.getElem?_eq_some_iff.mp hs).1
  rw [slopeOf, sum_eq_single i]
  · rw [hs, Option.map_some, Option.getD_some]
  · intro k hk hne
    have hk := mem_range.mp hk
    have hs' := List.getElem?_eq_getElem hk
    have hnot : j ∉ (ofVariables vars).substitutions[k].columns :=
      fun hj' => hne (eq_of_mem_columns hs' hs hj' hj)
    rw [hs', Option.map_some, Option.getD_some, Substitution.slope_eq_zero hnot, mul_zero]
  · exact fun hnot => absurd (mem_range.mpr hi) hnot

/-- So the cells of a sum spell it out. -/
theorem spells_cellsOf (sign : ℚ) (terms : Terms ℚ) :
    (ofVariables vars).Spells sign terms ((ofVariables vars).cellsOf sign terms).coord := by
  have hcell : ∀ i (s : Substitution ℚ), (ofVariables vars).substitutions[i]? = some s →
      ∀ c ∈ s.columns,
        ((ofVariables vars).cellsOf sign terms).coord c = sign * terms.weightOf i * s.slope c := by
    intro i s hs c hc
    rw [coord_cellsOf (lt_numColumns (List.mem_of_getElem? hs) hc), slopeOf_eq hs hc, mul_assoc]
  refine ⟨fun i s hs => ?_, fun i s hs hnone c hc => ?_⟩
  · have hcells := hcell i s hs
    have hnodup := nodup_columns (List.mem_of_getElem? hs)
    cases s with
    | shifted lower column =>
        rw [Substitution.Carries, hcells column (by simp)]
        simp [Substitution.slope]
    | reflected upper column =>
        rw [Substitution.Carries, hcells column (by simp)]
        simp [Substitution.slope]
    | split positive negative =>
        have hne : positive ≠ negative := by simpa [Substitution.columns] using hnodup
        rw [Substitution.Carries, hcells positive (by simp),
          hcells negative (by simp)]
        simp [Substitution.slope, hne, hne.symm]
  · rw [hcell i s hs c hc, Terms.weightOf_eq_zero hnone, mul_zero, zero_mul]

lemma Spells.congr {cells cells' : ℕ → ℚ} (h : (ofVariables vars).Spells sign terms cells)
    (hsame : ∀ j < (ofVariables vars).numColumns, cells' j = cells j) :
    (ofVariables vars).Spells sign terms cells' where
  carries i s hs := (h.carries i s hs).congr fun c hc =>
    hsame c (lt_numColumns (List.mem_of_getElem? hs) hc)
  absent i s hs hnone c hc :=
    (hsame c (lt_numColumns (List.mem_of_getElem? hs) hc)).trans (h.absent i s hs hnone c hc)

end ColumnMap

/-! ### The order of the rows -/

/-- What a row is the row of: the two bounds of a variable, or a constraint with a sign. -/
inductive RowOrigin where
  | bounds (i : ℕ)
  | constraint (sign : ℚ) (c : Constraint ℚ)

/-- The rows of a constraint: one for `≤`, the negated one for `≥`, and both for an equation. -/
def Constraint.origins (c : Constraint ℚ) : List RowOrigin :=
  match c.relation with
  | .le => [.constraint 1 c]
  | .ge => [.constraint (-1) c]
  | .eq => [.constraint 1 c, .constraint (-1) c]

/-- The variables with two bounds, in order of registration. -/
def boxedIndices (vars : List (Variable ℚ)) : List ℕ :=
  (List.range vars.length).filter fun i => (vars[i]?.map Variable.isBoxed).getD false

/-- The rows of a model in order: those of the variables with two bounds, then those of each
constraint. -/
def rowOrigins (vars : List (Variable ℚ)) (constraints : List (Constraint ℚ)) : List RowOrigin :=
  (boxedIndices vars).map .bounds ++ constraints.flatMap Constraint.origins

/-- The cells and the right-hand side of a row. The row of two bounds has a one in the column of the
variable and their distance on the right; a row of a constraint spells out its sum, with the
constants of the variables moved to the right. -/
def RowOrigin.Describes (vars : List (Variable ℚ)) (cells : ℕ → ℚ) (rhs : ℚ) : RowOrigin → Prop
  | bounds i => ∃ v lower upper column, vars[i]? = some v ∧ v.lower = some lower ∧
      v.upper = some upper ∧
      (ColumnMap.ofVariables vars).substitutions[i]? = some (.shifted lower column) ∧
      (∀ j < (ColumnMap.ofVariables vars).numColumns, cells j = if j = column then 1 else 0) ∧
      rhs = upper - lower
  | constraint sign c => (ColumnMap.ofVariables vars).Spells sign c.terms cells ∧
      rhs = sign * (c.rhs - (ColumnMap.ofVariables vars).baseOf c.terms)

lemma RowOrigin.Describes.congr {vars : List (Variable ℚ)} {origin : RowOrigin}
    {cells cells' : ℕ → ℚ} {rhs : ℚ} (h : origin.Describes vars cells rhs)
    (hsame : ∀ j < (ColumnMap.ofVariables vars).numColumns, cells' j = cells j) :
    origin.Describes vars cells' rhs := by
  cases origin with
  | bounds i =>
      obtain ⟨v, lower, upper, column, hv, hlower, hupper, hs, hcells, hrhs⟩ := h
      exact ⟨v, lower, upper, column, hv, hlower, hupper, hs,
        fun j hj => (hsame j hj).trans (hcells j hj), hrhs⟩
  | constraint sign c => exact ⟨h.1.congr hsame, h.2⟩

namespace StandardForm

variable {vars : List (Variable ℚ)} {constraints constraints' : List (Constraint ℚ)}
  {objective objective' : Objective ℚ}

/-- A row with a cell for each column is that of its origin. -/
def RowOf (vars : List (Variable ℚ)) (origin : RowOrigin) (row : Coords ℚ × ℚ) : Prop :=
  row.1.size = (ColumnMap.ofVariables vars).numColumns ∧ origin.Describes vars row.1.coord row.2

/-- The rows of a constraint are those of its origins. -/
lemma forall₂_origins (c : Constraint ℚ) :
    List.Forall₂ (RowOf vars) c.origins
      (c.relation.signs.map (closedRow (ColumnMap.ofVariables vars) c)) := by
  have hrow (sign : ℚ) : RowOf vars (.constraint sign c)
      (closedRow (ColumnMap.ofVariables vars) c sign) :=
    ⟨Coords.size_tabulate _ _, ColumnMap.spells_cellsOf sign c.terms, rfl⟩
  rw [Constraint.origins]
  cases c.relation with
  | le => exact .cons (hrow 1) .nil
  | ge => exact .cons (hrow (-1)) .nil
  | eq => exact .cons (hrow 1) (.cons (hrow (-1)) .nil)

/-- What a list gives, by the places at which it gives something. -/
lemma forall₂_filterMap {β γ : Type} (f : β → Option γ) (xs : List β) :
    List.Forall₂ (fun i c => xs[i]?.bind f = some c)
      ((List.range xs.length).filter fun i => (xs[i]?.bind f).isSome) (xs.filterMap f) := by
  induction xs with
  | nil => exact .nil
  | cons x xs ih =>
      have hrest : List.Forall₂ (fun i c => (x :: xs)[i]?.bind f = some c)
          (((List.range xs.length).map Nat.succ).filter fun i => ((x :: xs)[i]?.bind f).isSome)
          (xs.filterMap f) := by
        rw [List.filter_map, List.forall₂_map_left_iff]
        exact ih
      rw [List.length_cons, List.range_succ_eq_map, List.filter_cons]
      cases hx : f x with
      | none =>
          rw [if_neg (by simp [hx]), List.filterMap_cons_none hx]
          exact hrest
      | some c =>
          rw [if_pos (by simp [hx]), List.filterMap_cons_some hx]
          exact .cons hx hrest

/-- The row of a variable with two bounds. -/
lemma rowOf_of_boundRow? {i k : ℕ} {v : Variable ℚ} {row : Coords ℚ × ℚ} (hv : vars[i]? = some v)
    (hs : (ColumnMap.ofVariables vars).substitutions[i]? = some (Substitution.ofVariable v k))
    (hrow : boundRow? (ColumnMap.ofVariables vars).numColumns v (Substitution.ofVariable v k) =
      some row) : RowOf vars (.bounds i) row := by
  obtain ⟨lower, hl, hk⟩ | ⟨upper, -, -, hk⟩ | ⟨-, -, hk⟩ := Substitution.ofVariable_cases v k
  · rw [hk, boundRow?_shifted, Variable.finiteUpper_rat] at hrow
    rw [Variable.finiteLower_rat] at hl
    obtain ⟨upper, hu, rfl⟩ := Option.map_eq_some_iff.mp hrow
    refine ⟨Coords.size_unit _ _, v, lower, upper, k, hv, hl, hu, hk ▸ hs, fun j hj => ?_, rfl⟩
    rw [Coords.unit, Coords.coord_tabulate, if_pos hj]
  · rw [hk] at hrow
    cases hrow
  · rw [hk] at hrow
    cases hrow

/-- The rows of the bounds are those of the variables with two bounds, in order. -/
lemma forall₂_boundRows (vars : List (Variable ℚ)) :
    List.Forall₂ (RowOf vars) ((boxedIndices vars).map .bounds)
      (boundRows vars (ColumnMap.ofVariables vars)) := by
  set map := ColumnMap.ofVariables vars
  set entries := vars.zip map.substitutions with hentries
  have hlength : entries.length = vars.length := by
    have hmap : map.substitutions.length = vars.length := ColumnMap.length_fst_allot vars 0
    rw [hentries, List.length_zip, hmap, min_self]
  have hentry : ∀ (i : ℕ) (v : Variable ℚ), vars[i]? = some v →
      ∃ k, entries[i]? = some (v, Substitution.ofVariable v k) := by
    intro i v hv
    obtain ⟨k, hk⟩ := ColumnMap.exists_substitution hv 0
    exact ⟨k, List.getElem?_zip_eq_some.mpr ⟨hv, hk⟩⟩
  have hboxed : boxedIndices vars = (List.range entries.length).filter fun i =>
      (entries[i]?.bind fun (v, s) => boundRow? map.numColumns v s).isSome := by
    rw [boxedIndices, hlength]
    refine List.filter_congr fun i hi => ?_
    have hv := List.getElem?_eq_getElem (List.mem_range.mp hi)
    obtain ⟨k, hk⟩ := hentry i _ hv
    rw [hk, hv, Option.map_some, Option.getD_some]
    exact (isSome_boundRow? _ _ _).symm
  rw [List.forall₂_map_left_iff, hboxed]
  refine (forall₂_filterMap _ entries).imp fun i row hrow => ?_
  obtain ⟨⟨v, s⟩, hi, hrow⟩ := Option.bind_eq_some_iff.mp hrow
  obtain ⟨hv, hs⟩ := List.getElem?_zip_eq_some.mp hi
  obtain ⟨k, hk⟩ := hentry i v hv
  obtain ⟨-, rfl⟩ := Prod.mk.inj (Option.some.inj (hi.symm.trans hk))
  exact rowOf_of_boundRow? hv hs hrow

/-- The rows of a model are those of their origins, in order. -/
theorem forall₂_rowOrigins (vars : List (Variable ℚ)) (constraints : List (Constraint ℚ)) :
    List.Forall₂ (RowOf vars) (rowOrigins vars constraints)
      (boundRows vars (ColumnMap.ofVariables vars) ++ constraints.flatMap fun c =>
        c.relation.signs.map (closedRow (ColumnMap.ofVariables vars) c)) := by
  refine List.rel_append (forall₂_boundRows vars) ?_
  induction constraints with
  | nil => exact .nil
  | cons c constraints ih =>
      rw [List.flatMap_cons, List.flatMap_cons]
      exact List.rel_append (forall₂_origins c) ih

/-! ### The whole form -/

/-- Every part of the canonical form of a model is spelled out: the kinds of the variables, whose
columns are all there are; the rows in order, with their cells and right-hand sides; and the
costs and the constant. -/
structure SpelledOut (form : StandardForm ℚ) (vars : List (Variable ℚ))
    (constraints : List (Constraint ℚ)) (objective : Objective ℚ) : Prop where
  wellShaped : form.WellShaped
  numColumns_eq : form.numColumns = vars.length + vars.countP Variable.isFree
  substitution : ∀ (i : ℕ) (v : Variable ℚ), vars[i]? = some v →
    ∃ k, (ColumnMap.ofVariables vars).substitutions[i]? = some (Substitution.ofVariable v k)
  column : ∀ j < form.numColumns,
    ∃! i : ℕ, ∃ s, (ColumnMap.ofVariables vars).substitutions[i]? = some s ∧ j ∈ s.columns
  numRows_eq : form.numRows = (rowOrigins vars constraints).length
  row : ∀ r (origin : RowOrigin), (rowOrigins vars constraints)[r]? = some origin →
    origin.Describes vars (form.a.get r) (form.b.coord r)
  costs : (ColumnMap.ofVariables vars).Spells (if objective.goal = .maximize then 1 else -1)
    objective.terms form.c.coord
  constant : form.constant = (if objective.goal = .maximize then 1 else -1) *
    (ColumnMap.ofVariables vars).baseOf objective.terms

/-- A program made of such rows is spelled out. -/
lemma spelledOut_ofRows (vars : List (Variable ℚ)) (constraints : List (Constraint ℚ))
    (objective : Objective ℚ) :
    SpelledOut (ofRows (boundRows vars (ColumnMap.ofVariables vars) ++ constraints.flatMap fun c =>
          c.relation.signs.map (closedRow (ColumnMap.ofVariables vars) c))
        ((ColumnMap.ofVariables vars).cellsOf objective.goal.sign objective.terms)
        (objective.goal.sign * (ColumnMap.ofVariables vars).baseOf objective.terms))
      vars constraints objective := by
  set map := ColumnMap.ofVariables vars
  have hrows := forall₂_rowOrigins vars constraints
  have hcolumns : (map.cellsOf objective.goal.sign objective.terms).size = map.numColumns :=
    Coords.size_tabulate _ _
  have hgoal : (objective.goal.sign : ℚ) = if objective.goal = .maximize then 1 else -1 := by
    cases objective.goal <;> rfl
  constructor
  · exact wellShaped_ofRows _ _ _
  · rw [funext Variable.isFree_rat]
    exact hcolumns.trans (ColumnMap.numColumns_ofVariables vars)
  · exact fun i v hv => ColumnMap.exists_substitution hv 0
  · exact fun j hj => ColumnMap.existsUnique_mem_columns (hj.trans_eq hcolumns)
  · rw [numRows_ofRows, hrows.length_eq]
  · intro r origin horigin
    obtain ⟨hr, rfl⟩ := List.getElem?_eq_some_iff.mp horigin
    obtain ⟨hlength, hall⟩ := List.forall₂_iff_get.mp hrows
    obtain ⟨hsize, hdescribes⟩ := hall r hr (hlength ▸ hr)
    have hrow := List.getElem?_eq_getElem (hlength ▸ hr)
    rw [coord_b_ofRows hrow]
    refine hdescribes.congr fun j hj => ?_
    exact get_ofRows hrow (hj.trans_eq hcolumns.symm)
  · rw [← hgoal]
    exact ColumnMap.spells_cellsOf _ _
  · rw [← hgoal]
    rfl

/-- Whatever canonical form a model has is spelled out. -/
theorem spelledOut_of_ofModel_eq_ok {objective? : Option (Objective ℚ)} {form : StandardForm ℚ}
    {map : ColumnMap ℚ} (h : ofModel vars constraints objective? = .ok (form, map)) :
    map = ColumnMap.ofVariables vars ∧
      ∃ objective, SpelledOut form vars constraints objective := by
  obtain ⟨objective, rfl, hconstraints, hobjective⟩ := known_of_ofModel_eq_ok h
  rw [ofModel_eq_closed hconstraints hobjective] at h
  obtain ⟨rfl, rfl⟩ := Prod.mk.inj (Except.ok.inj h)
  exact ⟨rfl, objective, spelledOut_ofRows vars constraints objective⟩

/-- The canonical form of a model in closed form. There is a row for each variable with two bounds,
in order of registration, with a one in its column below their distance. Then come the rows of each
constraint in order, the plain one for `≤`, the negated one for `≥` and both for an equation. A cell
of such a row is the signed total weight of the variable, negated in a column that is subtracted,
and on the right the variables are moved over at their bounds. The objective becomes the costs and
the constant likewise. In particular only the total weights matter: terms may be put in another
order, merged or split up. -/
theorem ofModel_spelledOut (vars : List (Variable ℚ)) (constraints : List (Constraint ℚ))
    (objective : Objective ℚ) (hconstraints : ∀ c ∈ constraints, c.terms.Known vars.length)
    (hobjective : objective.terms.Known vars.length) :
    ∃ form, ofModel vars constraints (some objective) = .ok (form, ColumnMap.ofVariables vars) ∧
      SpelledOut form vars constraints objective ∧
      ∀ constraints' objective',
        List.Forall₂ (Constraint.Regroups vars.length) constraints constraints' →
        objective'.goal = objective.goal →
        Terms.Regroups vars.length objective.terms objective'.terms →
        ofModel vars constraints' (some objective') = .ok (form, ColumnMap.ofVariables vars) := by
  refine ⟨_, ofModel_eq_closed hconstraints hobjective,
    spelledOut_ofRows vars constraints objective,
    fun constraints' objective' hregroups hgoal hterms => ?_⟩
  have hconstraints' : ∀ c' ∈ constraints', c'.terms.Known vars.length :=
    (forall_mem_iff_of_forall₂ (P := fun _ => True) hregroups fun _ _ hc =>
      iff_of_true trivial hc.terms.known).mp fun _ _ => trivial
  rw [ofModel_eq_closed hconstraints' hterms.known, flatMap_closedRow_eq hregroups, hgoal,
    ColumnMap.cellsOf_eq_of_regroups hterms, ColumnMap.baseOf_eq_of_regroups hterms]

/-- The mixed constraints and objective with their terms in another order, and those of one variable
merged, have the canonical form of the mixed model. Its second row is that of the constraint `≥`. -/
theorem ofModel_spelledOut_mixed :
    let merged : List (Constraint ℚ) :=
      [⟨[(⟨1⟩, 1), (⟨0⟩, 3)], .ge, 3⟩, ⟨[(⟨2⟩, -1), (⟨1⟩, 1)], .eq, 1⟩]
    ∃ form,
      ofModel mixedVariables mixedConstraints (some mixedObjective) =
        .ok (form, ColumnMap.ofVariables mixedVariables) ∧
      ofModel mixedVariables merged (some ⟨.minimize, [(⟨2⟩, -2), (⟨0⟩, 2)]⟩) =
        .ok (form, ColumnMap.ofVariables mixedVariables) ∧
      (form.a.get 1 0 = -3 ∧ form.a.get 1 1 = -1 ∧ form.a.get 1 2 = 1 ∧ form.a.get 1 3 = 0) ∧
      form.b.coord 1 = 0 := by
  intro merged
  obtain ⟨form, hform, hspelled, hregroup⟩ := ofModel_spelledOut mixedVariables mixedConstraints
    mixedObjective (by decide) (by decide)
  refine ⟨form, hform, hregroup _ _ ?_ rfl ?_, ?_⟩
  · refine .cons ⟨rfl, rfl, by decide, fun i => ?_⟩ (.cons ⟨rfl, rfl, by decide, fun i => ?_⟩ .nil)
    · simp only [Terms.weightOf_cons]
      split_ifs <;> ring
    · simp only [Terms.weightOf_cons]
      split_ifs <;> ring
  · refine ⟨by decide, fun i => ?_⟩
    simp only [mixedObjective, Terms.weightOf_cons]
    split_ifs <;> ring
  · obtain ⟨hcells, hrhs⟩ := hspelled.row 1 (.constraint (-1) mixedConstraints[0]) rfl
    have hpump := hcells.carries 0 (.shifted 1 0) rfl
    have hdrift := hcells.carries 1 (.split 1 2) rfl
    have hdrain := hcells.absent 2 (.reflected 2 3) rfl (by decide) 3 (by decide)
    refine ⟨⟨hpump.trans ?_, hdrift.1.trans ?_, hdrift.2.trans ?_, hdrain⟩, hrhs.trans ?_⟩ <;>
      decide +kernel

end StandardForm

end LinProg
