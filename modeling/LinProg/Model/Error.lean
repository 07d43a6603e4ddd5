import LinProg.Extended

/-!
What can be wrong with a model before anything is solved.

* `ModelError`: the causes.
* `ModelError.message`: the sentence that reports one.
-/

namespace LinProg

/-- The defects of a model. -/
inductive ModelError (α : Type) where
  /-- A sum was given by two lists of different lengths. -/
  | lengthMismatch (vars weights : Nat)
  /-- The right-hand side of a constraint is not finite. -/
  | nonFiniteRhs (rhs : α)
  /-- A weight in a sum is not finite. -/
  | nonFiniteWeight (weight : α)
  /-- The bounds of a variable are not numbers in ascending order; a missing bound is none. -/
  | invalidBounds (lower upper : Option α)
  /-- No objective was given. -/
  | missingObjective
  /-- A sum names a variable that the model does not have. -/
  | unknownVariable (index : Nat)
  deriving DecidableEq, Repr

/-- The sentence that reports a defect. -/
def ModelError.message : ModelError Float → String
  | lengthMismatch vars weights =>
    s!"Expected one weight per variable, got {vars} variables and {weights} weights"
  | nonFiniteRhs rhs => s!"Constraint right-hand side must be finite, got {Decimal.plain rhs}"
  | nonFiniteWeight weight => s!"Weights must be finite, got {Decimal.plain weight}"
  | invalidBounds lower upper =>
    let below := (lower.map Extended.value).getD .negInfinity
    let above := (upper.map Extended.value).getD .posInfinity
    s!"Invalid variable bounds [{below.text}, {above.text}]"
  | missingObjective => "Objective function must be specified"
  | unknownVariable index => s!"Unknown variable id {index}"

end LinProg
