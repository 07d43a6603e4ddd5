import LinProg.Fault
import LinProg.Coords
import LinProg.Model.Terms

/-!
Linear constraints.

* `Relation`, `Relation.symbol`: the three relations.
* `Constraint`: a weighted sum, a relation and a finite right-hand side; `Constraint.ofTerms`
  and `Constraint.ofLists` make one.
* `Constraint.isSatisfiedBy`: whether the relation holds where the variables have given values.
* `Constraint.isSatisfiedAt`: the same for a vector of values, which has to reach every
  variable.
-/

namespace LinProg

/-- How the sum of a constraint relates to its right-hand side. -/
inductive Relation where
  | le
  | ge
  | eq
  deriving DecidableEq, Repr

/-- The symbol of a relation. -/
def Relation.symbol : Relation → String
  | le => "<="
  | ge => ">="
  | eq => "="

/-- The constraint that a weighted sum is in a relation to a number. -/
structure Constraint (α : Type) where
  terms : Terms α
  relation : Relation
  rhs : α
  deriving DecidableEq, Repr

namespace Constraint

variable {α : Type} [Scalar α]

/-- The constraint with a sum that is known to be sound, if the right-hand side is finite. -/
def ofChecked (terms : Terms α) (relation : Relation) (rhs : α) :
    Except (ModelError α) (Constraint α) :=
  if Scalar.isFinite rhs then .ok ⟨terms, relation, rhs⟩ else .error (.nonFiniteRhs rhs)

/-- The constraint on a sum given by its terms. -/
def ofTerms (terms : Terms α) (relation : Relation) (rhs : α) :
    Except (ModelError α) (Constraint α) := do
  ofChecked (← terms.checked) relation rhs

/-- The constraint on a sum given by its variables and its weights. -/
def ofLists (vars : List VariableId) (weights : List α) (relation : Relation) (rhs : α) :
    Except (ModelError α) (Constraint α) := do
  ofChecked (← Terms.ofLists vars weights) relation rhs

/-- Whether the constraint holds, allowing some slack, where each variable has the given value. -/
def isSatisfiedBy (c : Constraint α) (valueOf : VariableId → α) (tolerance : α) : Bool :=
  let lhs := c.terms.valueAt valueOf
  match c.relation with
  | .le => decide (lhs ≤ c.rhs + tolerance)
  | .ge => decide (c.rhs - tolerance ≤ lhs)
  | .eq => decide (Scalar.abs (lhs - c.rhs) ≤ tolerance)

/-- Whether the constraint holds where the variables have the values in a vector. -/
def isSatisfiedAt (c : Constraint α) (values : Coords α) (tolerance : α) : Except Fault Bool := do
  Fault.indexOutOfRange.unless (c.terms.firstUnknown? values.size).isNone
  return c.isSatisfiedBy (fun id => values.coord id.index) tolerance

end Constraint

end LinProg
