/-!
Broken preconditions. A fault says that an operation was asked for where it has no meaning; it
is never an answer about a linear program.

* `Fault`: the causes.
* `Fault.unless`: fails with a given fault where a condition does not hold.
-/

namespace LinProg

/-- The ways in which a precondition can be broken. -/
inductive Fault where
  /-- An index lies outside the vector, the matrix or the dictionary it is used on. -/
  | indexOutOfRange
  /-- A row, a right-hand side or a cost vector does not have the length its matrix asks for. -/
  | shapeMismatch
  /-- A matrix was asked for that has more entries than an array can hold. -/
  | tooLarge
  /-- A pivot was asked for whose entering variable is basic or whose leaving variable is not. -/
  | rolesMisplaced
  /-- A pivot was asked for on a coefficient that is zero. -/
  | zeroPivot
  /-- The auxiliary variable of phase one is still basic when it is to be dropped. -/
  | auxiliaryBasic
  /-- The pivoting loop used up the pivots it was allowed. -/
  | pivotLimit
  deriving DecidableEq, Repr

/-- Succeeds where the condition holds and fails with the fault elsewhere. -/
def Fault.unless (fault : Fault) (condition : Bool) : Except Fault Unit :=
  if condition then .ok () else .error fault

/-- A condition that holds lets a computation go on. -/
theorem Fault.unless_eq_ok {fault : Fault} {condition : Bool} {u : Unit} :
    fault.unless condition = .ok u ↔ condition = true := by
  cases condition <;> simp [Fault.unless]

end LinProg
