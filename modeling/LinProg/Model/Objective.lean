import LinProg.Model.Terms

/-!
Objectives: what is to be made as large or as small as possible.

* `Goal`: the two directions.
* `Objective`: a goal and a weighted sum; `Objective.ofTerms` and `Objective.ofLists` make one,
  and `Objective.empty` is the zero function, for models that only ask for a feasible point.
-/

namespace LinProg

/-- The direction of optimization. -/
inductive Goal where
  | maximize
  | minimize
  deriving DecidableEq, Repr

/-- A weighted sum with the direction in which it is optimized. -/
structure Objective (α : Type) where
  goal : Goal
  terms : Terms α
  deriving DecidableEq, Repr

namespace Objective

variable {α : Type} [Scalar α]

/-- The objective with a sum given by its terms. -/
def ofTerms (goal : Goal) (terms : Terms α) : Except (ModelError α) (Objective α) := do
  return ⟨goal, ← terms.checked⟩

/-- The objective with a sum given by its variables and its weights. -/
def ofLists (goal : Goal) (vars : List VariableId) (weights : List α) :
    Except (ModelError α) (Objective α) := do
  return ⟨goal, ← Terms.ofLists vars weights⟩

omit [Scalar α] in
/-- The zero function. -/
def empty : Objective α := ⟨.maximize, []⟩

end Objective

end LinProg
