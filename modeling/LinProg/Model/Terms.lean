import LinProg.Model.Variable

/-!
Weighted sums of variables, the common part of constraints and objectives.

* `Terms`: pairs of a variable and its weight, in order and with repetitions.
* `Terms.ofLists`, `Terms.checked`: sums whose weights are finite.
* `Terms.valueAt`: the value of the sum where the variables have given values.
* `Terms.firstUnknown?`: the first variable that a model of a given size does not have.
-/

namespace LinProg

/-- A sum of weighted variables. A variable may occur more than once. -/
abbrev Terms (α : Type) := List (VariableId × α)

namespace Terms

variable {α : Type} [Scalar α]

/-- The sum itself, if its weights are finite. -/
def checked (terms : Terms α) : Except (ModelError α) (Terms α) :=
  match terms.find? fun term => !Scalar.isFinite term.2 with
  | some term => .error (.nonFiniteWeight term.2)
  | none => .ok terms

/-- The sum of the variables in one list with the weights in another, place by place. -/
def ofLists (vars : List VariableId) (weights : List α) : Except (ModelError α) (Terms α) :=
  if vars.length = weights.length then checked (vars.zip weights)
  else .error (.lengthMismatch vars.length weights.length)

/-- The value of the sum where each variable has the given value. -/
def valueAt (terms : Terms α) (valueOf : VariableId → α) : α :=
  Scalar.sum (terms.map fun term => term.2 * valueOf term.1)

omit [Scalar α] in
/-- The first variable in the sum that is not among the first `count` ones. -/
def firstUnknown? (terms : Terms α) (count : Nat) : Option VariableId :=
  (terms.map Prod.fst).find? fun id => count ≤ id.index

omit [Scalar α] in
/-- A sum has no unknown variable where all of its variables are known. -/
theorem firstUnknown?_eq_none {terms : Terms α} {count : Nat} :
    terms.firstUnknown? count = none ↔ ∀ term ∈ terms, term.1.index < count := by
  simp [firstUnknown?]

end Terms

end LinProg
