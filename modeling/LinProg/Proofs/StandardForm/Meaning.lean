import LinProg.Proofs.StandardForm.OfModel

/-!
What the canonical form of a model means for vectors of values, over the exact rationals.

* `Admits`: a vector has a value for each variable and passes the tests of the model without slack.
* `wellShaped_of_ofModel_eq_ok`: the canonical form of a model has dimensions that agree.
* `StandardForm.Means`: a program with a map of its columns stands for a model. The map reads an
  admitted vector off every feasible point, every admitted vector is read off one, and the objective
  at any point is that of the model in the sign of the goal.
* `exists_ofModel_means`: every model has such a canonical form.
-/

namespace LinProg

variable {vars : List (Variable ℚ)} {constraints : List (Constraint ℚ)} {objective : Objective ℚ}

/-! ### Vectors of values -/

/-- A vector with a value for each variable that lies within the bounds of all of them and satisfies
all constraints, where neither test allows any slack. -/
structure Admits (vars : List (Variable ℚ)) (constraints : List (Constraint ℚ)) (x : Coords ℚ) :
    Prop where
  size_eq : x.size = vars.length
  contains : ∀ i (v : Variable ℚ), vars[i]? = some v → v.contains (x.coord i) 0
  isSatisfiedAt : ∀ c ∈ constraints, c.isSatisfiedAt x 0 = .ok true

/-- A constraint is tested where the vector reaches its variables. -/
lemma Constraint.isSatisfiedAt_eq_ok {c : Constraint ℚ} {x : Coords ℚ}
    (h : c.terms.Known x.size) (tolerance : ℚ) :
    c.isSatisfiedAt x tolerance = .ok (c.isSatisfiedBy (fun id => x.coord id.index) tolerance) := by
  have hnone : c.terms.firstUnknown? x.size = none := Terms.firstUnknown?_eq_none_iff.mpr h
  simp [isSatisfiedAt, hnone, Fault.unless, bind, Except.bind, pure, Except.pure]

/-- A vector is admitted where its values satisfy the model. -/
lemma admits_iff (hknown : ∀ c ∈ constraints, c.terms.Known vars.length) {x : Coords ℚ}
    (hsize : x.size = vars.length) :
    Admits vars constraints x ↔ Satisfies vars constraints x.coord := by
  have htest : ∀ c ∈ constraints, c.isSatisfiedAt x 0 =
      .ok (c.isSatisfiedBy (fun id => x.coord id.index) 0) :=
    fun c hc => Constraint.isSatisfiedAt_eq_ok (hsize ▸ hknown c hc) 0
  constructor
  · intro h
    refine ⟨h.contains, fun c hc => ?_⟩
    have htrue := h.isSatisfiedAt c hc
    rw [htest c hc] at htrue
    exact Except.ok.inj htrue
  · intro h
    refine ⟨hsize, h.contains, fun c hc => ?_⟩
    rw [htest c hc, h.isSatisfiedBy c hc]

namespace StandardForm

/-! ### Dimensions -/

section Dimensions

variable {α : Type} [Scalar α]

/-- A program made of rows has a cell for each row and cost. -/
lemma wellShaped_ofRows (rows : List (Coords α × α)) (costs : Coords α) (constant : α) :
    (ofRows rows costs constant).WellShaped := by
  refine ⟨DenseMatrix.wellShaped_ofFn _ _ _, ?_, rfl⟩
  simp [ofRows, numRows, DenseMatrix.ofFn]

/-- So has the canonical form of a model. -/
theorem wellShaped_of_ofModel_eq_ok {vars : List (Variable α)} {constraints : List (Constraint α)}
    {objective? : Option (Objective α)} {form : StandardForm α} {map : ColumnMap α}
    (h : ofModel vars constraints objective? = .ok (form, map)) : form.WellShaped := by
  cases objective? with
  | none => exact absurd h (by simp [ofModel, throw, throwThe, MonadExceptOf.throw])
  | some objective =>
      simp only [ofModel, bind_eq_ok] at h
      obtain ⟨rows, -, ⟨costs, constant⟩, -, h⟩ := h
      obtain ⟨rfl, -⟩ := Prod.mk.inj (Except.ok.inj h)
      exact wellShaped_ofRows _ _ _

end Dimensions

/-! ### Programs that stand for a model -/

/-- A program with a map of its columns stands for a model. -/
structure Means (form : StandardForm ℚ) (map : ColumnMap ℚ) (vars : List (Variable ℚ))
    (constraints : List (Constraint ℚ)) (objective : Objective ℚ) : Prop where
  wellShaped : form.WellShaped
  /-- A feasible point gives a vector that the model admits. -/
  admits_values : ∀ y : Coords ℚ, form.numColumns ≤ y.size → form.IsFeasible y.coord →
    ∃ x, map.values y = .ok x ∧ Admits vars constraints x
  /-- Every vector that the model admits comes from a feasible point. -/
  exists_values_eq : ∀ x, Admits vars constraints x →
    ∃ y : Coords ℚ, y.size = form.numColumns ∧ form.IsFeasible y.coord ∧ map.values y = .ok x
  /-- At any point, feasible or not, the program has the objective of the model. -/
  objectiveAt_eq : ∀ y : Coords ℚ, form.numColumns ≤ y.size →
    ∃ x, map.values y = .ok x ∧ x.size = vars.length ∧
      (objective.goal = .maximize → form.objectiveAt y.coord = objective.terms.value x.coord) ∧
      (objective.goal = .minimize → form.objectiveAt y.coord = -objective.terms.value x.coord)

variable {form : StandardForm ℚ} {map : ColumnMap ℚ} {y : Coords ℚ}

/-- The map reads a value for each variable off every point of the program. -/
lemma Represents.exists_values (h : Represents form map vars constraints objective)
    (hy : form.numColumns ≤ y.size) :
    ∃ x, map.values y = .ok x ∧ x.size = vars.length ∧ x.coord = map.assignment y.coord := by
  obtain ⟨x, hx, hsize, hcoord⟩ :=
    ColumnMap.values_eq_ok fun s hs c hc => (h.column_lt s hs c hc).trans_le hy
  exact ⟨x, hx, hsize.trans h.length_eq, hcoord⟩

/-- The first coordinates of a point, one for each column, are as feasible as the point. -/
lemma isFeasible_tabulate {y : ℕ → ℚ} (hy : form.IsFeasible y) :
    form.IsFeasible (Coords.tabulate form.numColumns y).coord := by
  have hsame : ∀ j < form.numColumns, (Coords.tabulate form.numColumns y).coord j = y j :=
    fun j hj => by rw [Coords.coord_tabulate, if_pos hj]
  refine ⟨fun j hj => ?_, fun i hi => ?_⟩
  · rw [hsame j hj]
    exact hy.nonneg j hj
  · rw [lhs_congr hsame]
    exact hy.lhs_le i hi

/-- A program whose points represent the assignments of a model stands for the model. -/
theorem Represents.means (h : Represents form map vars constraints objective)
    (hshape : form.WellShaped) (hknown : ∀ c ∈ constraints, c.terms.Known vars.length) :
    Means form map vars constraints objective where
  wellShaped := hshape
  admits_values y hy hfeasible := by
    obtain ⟨x, hx, hsize, hcoord⟩ := h.exists_values hy
    refine ⟨x, hx, (admits_iff hknown hsize).mpr ?_⟩
    rw [hcoord]
    exact ((h.isFeasible_iff _).mp hfeasible).2
  exists_values_eq x hx := by
    obtain ⟨y, hfeasible, hy⟩ := h.exists_isFeasible x.coord ((admits_iff hknown hx.size_eq).mp hx)
    have hsize : (Coords.tabulate form.numColumns y).size = form.numColumns :=
      Coords.size_tabulate _ _
    obtain ⟨x', hx', hsize', hcoord'⟩ := h.exists_values hsize.ge
    refine ⟨Coords.tabulate form.numColumns y, hsize, isFeasible_tabulate hfeasible, ?_⟩
    -- the vector that is read has the values of `x`, variable by variable
    have hxx' : x' = x := by
      refine Coords.ext_coord (hsize'.trans hx.size_eq.symm) fun i hi => ?_
      have hs := List.getElem?_eq_getElem (h.length_eq.symm ▸ hsize' ▸ hi)
      rw [hcoord', ← hy i (hsize' ▸ hi), ColumnMap.assignment_of_getElem? hs,
        ColumnMap.assignment_of_getElem? hs]
      refine Substitution.eval_congr fun c hc => ?_
      rw [Coords.coord_tabulate, if_pos (h.column_lt _ (List.mem_of_getElem? hs) c hc)]
    rw [hx', hxx']
  objectiveAt_eq y hy := by
    obtain ⟨x, hx, hsize, hcoord⟩ := h.exists_values hy
    refine ⟨x, hx, hsize, fun hgoal => ?_, fun hgoal => ?_⟩
    · rw [h.objectiveAt_eq, hgoal, hcoord, Goal.sign, one_mul]
    · rw [h.objectiveAt_eq, hgoal, hcoord, Goal.sign, neg_one_mul]

/-- Every model whose constraints and objective name only its own variables has a canonical form
that stands for it: whatever the bounds of the variables, the relations of the constraints, the
repetitions in the sums and the goal. -/
theorem exists_ofModel_means (vars : List (Variable ℚ)) (constraints : List (Constraint ℚ))
    (objective : Objective ℚ) (hconstraints : ∀ c ∈ constraints, c.terms.Known vars.length)
    (hobjective : objective.terms.Known vars.length) :
    ∃ form map, ofModel vars constraints (some objective) = .ok (form, map) ∧
      Means form map vars constraints objective := by
  obtain ⟨form, map, hform, hrepresents⟩ := exists_ofModel hconstraints hobjective
  exact ⟨form, map, hform,
    hrepresents.means (wellShaped_of_ofModel_eq_ok hform) hconstraints⟩

/-- Three variables, one with two bounds, one with none and one with an upper bound only. -/
def mixedVariables : List (Variable ℚ) :=
  [⟨"pump", some 1, some 4⟩, ⟨"drift", none, none⟩, ⟨"drain", none, some 2⟩]

/-- A constraint `≥` that names a variable twice, and an equation. -/
def mixedConstraints : List (Constraint ℚ) :=
  [⟨[(⟨0⟩, 2), (⟨1⟩, 1), (⟨0⟩, 1)], .ge, 3⟩, ⟨[(⟨1⟩, 1), (⟨2⟩, -1)], .eq, 1⟩]

/-- An objective that names a variable twice and is minimized. -/
def mixedObjective : Objective ℚ := ⟨.minimize, [(⟨0⟩, 1), (⟨2⟩, -2), (⟨0⟩, 1)]⟩

/-- Their canonical form has four columns and four rows, and a vector that satisfies the model is
read off a feasible point of it. -/
theorem exists_ofModel_means_mixed :
    (∀ c ∈ mixedConstraints, c.terms.Known mixedVariables.length) ∧
    mixedObjective.terms.Known mixedVariables.length ∧
    ∃ form map,
      ofModel mixedVariables mixedConstraints (some mixedObjective) = .ok (form, map) ∧
      form.numColumns = 4 ∧ form.numRows = 4 ∧
      Means form map mixedVariables mixedConstraints mixedObjective ∧
      ∃ y : Coords ℚ, form.IsFeasible y.coord ∧ map.values y = .ok #[1, 2, 1] := by
  have hconstraints : ∀ c ∈ mixedConstraints, c.terms.Known mixedVariables.length := by decide
  have hobjective : mixedObjective.terms.Known mixedVariables.length := by decide
  obtain ⟨form, map, hform, hmeans⟩ :=
    exists_ofModel_means mixedVariables mixedConstraints mixedObjective hconstraints hobjective
  have hshape : (ofModel mixedVariables mixedConstraints (some mixedObjective)).map
      (fun result => (result.1.numColumns, result.1.numRows)) = .ok (4, 4) := by cbv
  rw [hform] at hshape
  obtain ⟨hcolumns, hrows⟩ := Prod.mk.inj (Except.ok.inj hshape)
  have hsatisfies : Satisfies mixedVariables mixedConstraints (Coords.coord #[1, 2, 1]) := by
    refine ⟨fun i v hv => ?_, by decide +kernel⟩
    have hi : i < 3 := (List.getElem?_eq_some_iff.mp hv).1
    interval_cases i <;> cases hv <;> decide +kernel
  obtain ⟨y, -, hfeasible, hvalues⟩ :=
    hmeans.exists_values_eq _ ((admits_iff hconstraints rfl).mpr hsatisfies)
  exact ⟨hconstraints, hobjective, form, map, hform, hcolumns, hrows, hmeans, y, hfeasible,
    hvalues⟩

end StandardForm

end LinProg
