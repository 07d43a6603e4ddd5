import LinProg.Proofs.Operation
import LinProg.Proofs.Solver
import LinProg.Proofs.StandardForm.OfModel

/-!
A program answers every query about its model correctly, over the exact rationals.

* `Program.Built`, `Program.Coherent`: the programs that come from an empty one by accepted changes,
  and what holds of all of them.
* `IsOptimal`, `Program.Correct`: the best assignments of a model, and what right replies to the
  queries are.
* `Program.Replies`, `replies_of_solve`: what the queries give once the canonical form is solved.
* `StandardForm.Represents.correct`: a right answer to the canonical form gives right replies;
  `Program.Built.replies_correct` puts all of it together.
-/

namespace LinProg

/-! ### Programs under construction -/

namespace Program

variable {p : Program ℚ}

/-- Programs that come from an empty one by changes that are accepted. -/
inductive Built : Program ℚ → Prop where
  | empty (solver : Solver ℚ) : Built (Program.empty solver)
  | withSolver {p : Program ℚ} (h : Built p) (solver : Solver ℚ) : Built (p.withSolver solver)
  | register {p p' : Program ℚ} {name : String} {lower upper : Option ℚ} {id : VariableId}
      (h : Built p) (hp : p.register name lower upper = (.ok id, p')) : Built p'
  | nonnegative {p : Program ℚ} (h : Built p) (name : String) :
      Built (p.addVariable (.nonnegative name)).2
  | free {p : Program ℚ} (h : Built p) (name : String) : Built (p.addVariable (.free name)).2
  | addConstraint {p p' : Program ℚ} {c : Constraint ℚ} (h : Built p)
      (hp : p.addConstraint c = (.ok (), p')) : Built p'
  | setObjective {p p' : Program ℚ} {objective : Objective ℚ} (h : Built p)
      (hp : p.setObjective objective = (.ok (), p')) : Built p'

/-- No solution is known, and all sums are over variables of the program. -/
structure Coherent (p : Program ℚ) : Prop where
  solved_eq : p.solved = none
  constraints_known : ∀ c ∈ p.constraints, c.terms.Known p.vars.length
  objective_known : ∀ objective, p.objective = some objective →
    objective.terms.Known p.vars.length

lemma checkKnown_eq_ok {terms : Terms ℚ} {u : Unit} :
    p.checkKnown terms = .ok u ↔ terms.Known p.vars.length :=
  checkKnown_eq_ok_iff

/-- One more variable leaves the known ones known. -/
lemma Coherent.addVariable (h : p.Coherent) (v : Variable ℚ) : (p.addVariable v).2.Coherent where
  solved_eq := rfl
  constraints_known c hc :=
    (h.constraints_known c hc).mono (by simp [Program.addVariable])
  objective_known objective ho :=
    (h.objective_known objective ho).mono (by simp [Program.addVariable])

/-- Every accepted change keeps a program coherent. -/
theorem Built.coherent (h : p.Built) : p.Coherent := by
  induction h with
  | empty solver =>
      exact ⟨rfl, fun c hc => absurd hc (by simp [Program.empty]),
        fun o ho => absurd ho (by simp [Program.empty])⟩
  | withSolver _ solver ih => exact ⟨rfl, ih.constraints_known, ih.objective_known⟩
  | register _ hp ih =>
      obtain ⟨-, -, rfl⟩ | ⟨⟨error, herror⟩, -⟩ := register_cases hp
      · exact ih.addVariable _
      · cases herror
  | nonnegative _ name ih => exact ih.addVariable _
  | free _ name ih => exact ih.addVariable _
  | addConstraint _ hp ih =>
      obtain ⟨hknown, -, rfl⟩ | ⟨⟨error, herror⟩, -⟩ := addConstraint_cases hp
      · refine ⟨rfl, fun c hc => ?_, ih.objective_known⟩
        rcases List.mem_append.mp hc with hc | hc
        · exact ih.constraints_known c hc
        · rw [List.mem_singleton.mp hc]
          exact checkKnown_eq_ok.mp hknown
      · cases herror
  | setObjective _ hp ih =>
      obtain ⟨hknown, -, rfl⟩ | ⟨⟨error, herror⟩, -⟩ := setObjective_cases hp
      · refine ⟨rfl, ih.constraints_known, fun o ho => ?_⟩
        rw [← Option.some.inj ho]
        exact checkKnown_eq_ok.mp hknown
      · cases herror

end Program

/-! ### Right replies -/

/-- An assignment satisfies a model, and no other one that does has a better objective. -/
structure IsOptimal (vars : List (Variable ℚ)) (constraints : List (Constraint ℚ))
    (objective : Objective ℚ) (x : ℕ → ℚ) : Prop where
  satisfies : Satisfies vars constraints x
  prefers : ∀ x', Satisfies vars constraints x' →
    objective.goal.Prefers (objective.terms.value x) (objective.terms.value x')

/-- The infinity beyond all values that a goal can reach. -/
def Goal.infinity : Goal → Extended ℚ
  | .maximize => .posInfinity
  | .minimize => .negInfinity

/-- A status, the values of the variables and a value of the objective are right about a model. -/
structure Correct (vars : List (Variable ℚ)) (constraints : List (Constraint ℚ))
    (objective : Objective ℚ) (status : Status) (values : Option (Coords ℚ))
    (best : Option (Extended ℚ)) : Prop where
  infeasible_iff : status = .infeasible ↔ ¬ ∃ x, Satisfies vars constraints x
  of_infeasible : status = .infeasible → values = none ∧ best = none
  unbounded_iff : status = .unbounded ↔
    (∃ x, Satisfies vars constraints x) ∧ ¬ ∃ x, IsOptimal vars constraints objective x
  of_unbounded : status = .unbounded → values = none ∧ best = some objective.goal.infinity ∧
    ∀ bound, ∃ x, Satisfies vars constraints x ∧
      ¬ objective.goal.Prefers bound (objective.terms.value x)
  of_feasible : status = .feasible → ∃ v : Coords ℚ,
    values = some v ∧ v.size = vars.length ∧ IsOptimal vars constraints objective v.coord ∧
    best = some (.value (objective.terms.value v.coord))

/-! ### What the queries give -/

namespace Program

variable {p p' : Program ℚ} {form : StandardForm ℚ} {map : ColumnMap ℚ} {s : Solution ℚ}
  {objective : Objective ℚ}

/-- The queries of a program give a status, the values of the variables, all and one by one, and
the value of the objective. -/
structure Replies (p : Program ℚ) (status : Status) (values : Option (Coords ℚ))
    (best : Option (Extended ℚ)) : Prop where
  solve_eq : ∃ s p', p.solve.result = .ok (.ok s, p') ∧ s.status = status
  status_eq : ∃ p', p.status.result = .ok (.ok status, p')
  values_eq : ∃ p', p.values.result = .ok (.ok values, p')
  value_eq : ∀ id : VariableId, id.index < p.vars.length →
    ∃ p', (p.value id).result = .ok (.ok (values.map (·.coord id.index)), p')
  objectiveValue_eq : ∃ p', p.objectiveValue.result = .ok (.ok best, p')

/-- The values `v` of the variables are those that a map reads from the columns `x`. -/
def ReadBy (map : ColumnMap ℚ) (count : ℕ) (x v : Coords ℚ) : Prop :=
  map.values x = .ok v ∧
    ∀ id : VariableId, id.index < count → map.value id x = .ok (some (v.coord id.index))

/-- What the queries give once the canonical form is solved. -/
theorem replies_of_solve (hsolved : p.solved = none)
    (hbuild : p.build.result = .ok (.ok (form, map)))
    (hsolve : (p.solver.solve form).result = .ok s) {values : Option (Coords ℚ)}
    (hread : Option.Rel (ReadBy map p.vars.length) s.values values) :
    p.Replies s.status values
      (if s.status = .infeasible then none else some (p.oriented s.objective)) := by
  have hmodel := solvedModel_result_eq hsolved hbuild hsolve
  obtain ⟨status, columns, best, pivots⟩ := s
  refine ⟨⟨_, _, ask_result_eq hmodel rfl, rfl⟩, ⟨_, ask_result_eq hmodel rfl⟩,
    ⟨_, ask_result_eq hmodel ?_⟩, fun id hid => ?_, ⟨_, ask_result_eq hmodel ?_⟩⟩
  · cases hread with
    | none => rfl
    | some h => simp [Option.mapM, h.1]
  · rw [Program.value, if_neg (not_le.mpr hid)]
    refine ⟨_, ask_result_eq hmodel ?_⟩
    cases hread with
    | none => rfl
    | some h => exact h.2 id hid
  · cases status <;> rfl

lemma oriented_value (h : p.objective = some objective) (a : ℚ) :
    p.oriented (.value (objective.goal.sign * a)) = .value a := by
  obtain ⟨_ | _, terms⟩ := objective
  · simp [oriented, h, Goal.sign]
  · simp [oriented, h, Goal.sign, Extended.neg]

lemma oriented_posInfinity (h : p.objective = some objective) :
    p.oriented .posInfinity = objective.goal.infinity := by
  obtain ⟨_ | _, terms⟩ := objective
  · simp [oriented, h, Goal.infinity]
  · simp [oriented, h, Goal.infinity, Extended.neg]

end Program

/-! ### From the canonical form to the model -/

namespace StandardForm

variable {form : StandardForm ℚ} {map : ColumnMap ℚ} {vars : List (Variable ℚ)}
  {constraints : List (Constraint ℚ)} {objective : Objective ℚ} {s : Solution ℚ} {x y : ℕ → ℚ}

section Represents

variable (h : Represents form map vars constraints objective)
  (hknown : objective.terms.Known vars.length)
include h

lemma Represents.exists_isFeasible_iff :
    (∃ y, form.IsFeasible y) ↔ ∃ x, Satisfies vars constraints x := by
  constructor
  · rintro ⟨y, hy⟩
    exact ⟨_, ((h.isFeasible_iff y).mp hy).2⟩
  · rintro ⟨x, hx⟩
    obtain ⟨y, hy, -⟩ := h.exists_isFeasible x hx
    exact ⟨y, hy⟩

include hknown

/-- An assignment that satisfies the model is a feasible point with the same objective. -/
lemma Represents.exists_objectiveAt_eq (hx : Satisfies vars constraints x) :
    ∃ y, form.IsFeasible y ∧
      form.objectiveAt y = objective.goal.sign * objective.terms.value x := by
  obtain ⟨y, hy, hsame⟩ := h.exists_isFeasible x hx
  refine ⟨y, hy, ?_⟩
  rw [h.objectiveAt_eq, Terms.value_congr hknown hsame]

/-- A point that is optimal for the canonical form is an optimal assignment. -/
lemma Represents.isOptimal (hy : form.IsFeasible y)
    (hbest : ∀ y', form.IsFeasible y' → form.objectiveAt y' ≤ form.objectiveAt y) :
    IsOptimal vars constraints objective (map.assignment y) where
  satisfies := ((h.isFeasible_iff y).mp hy).2
  prefers x' hx' := by
    obtain ⟨y', hy', hvalue⟩ := h.exists_objectiveAt_eq hknown hx'
    have hle := hbest y' hy'
    rw [hvalue, h.objectiveAt_eq] at hle
    exact Goal.sign_mul_le_iff.mp hle

omit hknown in
/-- Where the canonical form is unbounded, the model has assignments beyond every bound. -/
lemma Represents.exists_not_prefers (hgrows : form.IsUnbounded) (bound : ℚ) :
    ∃ x, Satisfies vars constraints x ∧
      ¬ objective.goal.Prefers bound (objective.terms.value x) := by
  obtain ⟨y, hy, hlt⟩ := hgrows (objective.goal.sign * bound)
  refine ⟨_, ((h.isFeasible_iff y).mp hy).2, ?_⟩
  rw [h.objectiveAt_eq] at hlt
  rwa [← Goal.sign_mul_le_iff, not_le]

omit hknown in
/-- The values that the map reads from a point of the canonical form. -/
lemma Represents.exists_readBy {v : Coords ℚ} (hsize : v.size = form.numColumns) :
    ∃ values, Program.ReadBy map vars.length v values ∧ values.size = vars.length ∧
      values.coord = map.assignment v.coord := by
  have hcolumns : ∀ s ∈ map.substitutions, ∀ c ∈ s.columns, c < v.size := by
    rw [hsize]
    exact h.column_lt
  obtain ⟨values, hvalues, hlength, hcoord⟩ := ColumnMap.values_eq_ok hcolumns
  refine ⟨values, ⟨hvalues, fun id hid => ?_⟩, hlength.trans h.length_eq, hcoord⟩
  rw [hcoord]
  exact ColumnMap.value_eq_ok hcolumns (h.length_eq ▸ hid)

/-- A right answer to the canonical form is a right one to the model. -/
theorem Represents.correct {p : Program ℚ} (hp : p.objective = some objective)
    (hanswers : s.Answers form) :
    ∃ values, Option.Rel (Program.ReadBy map vars.length) s.values values ∧
      Correct vars constraints objective s.status values
        (if s.status = .infeasible then none else some (p.oriented s.objective)) := by
  cases hstatus : s.status with
  | infeasible =>
      have hnone := hanswers.infeasible_iff.mp hstatus
      rw [h.exists_isFeasible_iff] at hnone
      rw [(hanswers.of_infeasible hstatus).1]
      refine ⟨none, .none, iff_of_true rfl hnone, fun _ => ⟨rfl, rfl⟩,
        iff_of_false (by simp) fun hx => hnone hx.1, ?_, ?_⟩
      · exact fun hunbounded => absurd hunbounded (by simp)
      · exact fun hfeasible => absurd hfeasible (by simp)
  | unbounded =>
      obtain ⟨hx, hgrows⟩ := hanswers.unbounded_iff.mp hstatus
      rw [h.exists_isFeasible_iff] at hx
      obtain ⟨hvalues, hobjective⟩ := hanswers.of_unbounded hstatus
      have hnever : ¬ ∃ x, IsOptimal vars constraints objective x := by
        rintro ⟨x, hoptimal⟩
        obtain ⟨x', hx', hnot⟩ := h.exists_not_prefers hgrows (objective.terms.value x)
        exact hnot (hoptimal.prefers x' hx')
      rw [hvalues, hobjective]
      refine ⟨none, .none, iff_of_false (by simp) fun hnone => hnone hx, ?_,
        iff_of_true rfl ⟨hx, hnever⟩, fun _ => ⟨rfl, ?_, h.exists_not_prefers hgrows⟩, ?_⟩
      · exact fun hinfeasible => absurd hinfeasible (by simp)
      · simp [Program.oriented_posInfinity hp]
      · exact fun hfeasible => absurd hfeasible (by simp)
  | feasible =>
      obtain ⟨v, hv, hsize, hfeasible, hobjective, hbest⟩ := hanswers.of_feasible hstatus
      obtain ⟨values, hread, hlength, hcoord⟩ := h.exists_readBy hsize
      have hoptimal := h.isOptimal hknown hfeasible hbest
      rw [← hcoord] at hoptimal
      rw [hv, hobjective, h.objectiveAt_eq, ← hcoord]
      refine ⟨some values, .some hread, iff_of_false (by simp) fun hnone => ?_, ?_,
        iff_of_false (by simp) fun hunbounded => ?_, ?_, fun _ => ?_⟩
      · exact hnone ⟨_, hoptimal.satisfies⟩
      · exact fun hinfeasible => absurd hinfeasible (by simp)
      · exact hunbounded.2 ⟨_, hoptimal⟩
      · exact fun hunbounded => absurd hunbounded (by simp)
      · refine ⟨values, rfl, hlength, hoptimal, ?_⟩
        simp [Program.oriented_value hp]

end Represents

end StandardForm

/-! ### All together -/

namespace Program

variable {p : Program ℚ} {objective : Objective ℚ}

/-- Whatever changes a program was built by, it has a canonical form once it has an objective. Where
the tolerance of the solver is positive and below one over the number of its rows, and no
nonnegative point misses the rows by less than the tolerance, every query gives an answer, and the
answers are right about the model. -/
theorem Built.replies_correct (h : p.Built) (hobjective : p.objective = some objective)
    (ht : 0 < p.solver.tolerance) :
    ∃ form map, p.build.result = .ok (.ok (form, map)) ∧
      (p.solver.tolerance * form.numRows < 1 → form.Gap p.solver.tolerance →
        ∃ status values best, p.Replies status values best ∧
          Correct p.vars p.constraints objective status values best) := by
  have hcoherent := h.coherent
  have hknown := hcoherent.objective_known objective hobjective
  obtain ⟨form, map, hbuild, hrepresents⟩ :=
    StandardForm.exists_ofModel hcoherent.constraints_known hknown
  rw [← hobjective] at hbuild
  refine ⟨form, map, build_result_eq hbuild, fun htm hgap => ?_⟩
  obtain ⟨s, last, hsolve, hanswers⟩ := Dictionary.exists_solve ht htm hgap
  obtain ⟨values, hread, hcorrect⟩ := hrepresents.correct hknown hobjective hanswers
  exact ⟨s.status, values, _, replies_of_solve hcoherent.solved_eq (build_result_eq hbuild)
    (Solver.solve_result_eq hsolve) hread, hcorrect⟩

/-- The program that makes `2 x + y` as small as it can be, with `x` between one and three and
`x + y` at least zero. -/
def sample : Program ℚ where
  vars := [⟨"x", some 1, some 3⟩, .free "y"]
  constraints := [⟨[(⟨0⟩, 1), (⟨1⟩, 1)], .ge, 0⟩]
  objective := some ⟨.minimize, [(⟨0⟩, 2), (⟨1⟩, 1)]⟩
  solver := ⟨1 / 10⟩
  solved := none

lemma built_sample : sample.Built := by
  have hregister := @register_of_valid ℚ _ (.empty ⟨1 / 10⟩) "x" (some 1) (some 3)
    (by decide +kernel)
  have hvars := (Built.register (.empty _) hregister).free "y"
  have hconstraint := @Built.addConstraint _ _ ⟨[(⟨0⟩, 1), (⟨1⟩, 1)], .ge, 0⟩ hvars rfl
  exact @Built.setObjective _ _ ⟨.minimize, [(⟨0⟩, 2), (⟨1⟩, 1)]⟩ hconstraint rfl

/-- The sample has its optimum where `x` is one and `y` minus one. -/
theorem replies_correct_sample :
    ∃ status values best, sample.Replies status values best ∧
      Correct sample.vars sample.constraints ⟨.minimize, [(⟨0⟩, 2), (⟨1⟩, 1)]⟩
        status values best ∧
      values = some #[1, -1] ∧ best = some (.value 1) := by
  obtain ⟨form, map, hbuild, hanswers⟩ := built_sample.replies_correct rfl (by norm_num [sample])
  have hform : (sample.build.result.map fun built => built.map Prod.fst) =
      .ok (.ok ⟨⟨2, 3, #[1, 0, 0, -1, -1, 1]⟩, #[2, 1], #[-2, -1, 1], -2⟩) := by decide +kernel
  obtain rfl : form = ⟨⟨2, 3, #[1, 0, 0, -1, -1, 1]⟩, #[2, 1], #[-2, -1, 1], -2⟩ := by
    simpa [hbuild, Except.map] using hform
  have hzero : StandardForm.IsFeasible
      ⟨⟨2, 3, #[1, 0, 0, -1, -1, 1]⟩, #[2, 1], #[-2, -1, 1], -2⟩ fun _ => 0 := by
    constructor <;> decide +kernel
  obtain ⟨status, values, best, hreplies, hcorrect⟩ :=
    hanswers (by decide +kernel) (.inl ⟨_, hzero⟩)
  refine ⟨status, values, best, hreplies, hcorrect, ?_, ?_⟩
  · obtain ⟨_, hvalues⟩ := hreplies.values_eq
    have heval : (sample.values.result.map Prod.fst) = .ok (.ok (some #[1, -1])) := by
      decide +kernel
    simpa [hvalues, Except.map] using heval
  · obtain ⟨_, hbest⟩ := hreplies.objectiveValue_eq
    have heval : (sample.objectiveValue.result.map Prod.fst) = .ok (.ok (some (.value 1))) := by
      decide +kernel
    simpa [hbest, Except.map] using heval

end Program

end LinProg
