import LinProg.Coords
import LinProg.Extended

/-!
Answers to canonical programs.

* `Status`: whether an optimum was found and, if not, why.
* `Solution`: the status with the optimal point, the optimal value and the number of pivots
  spent; `Solution.feasible`, `infeasible` and `unbounded` are the three that the engine gives.
-/

namespace LinProg

/-- What is known about a program once it is solved. -/
inductive Status where
  /-- An optimal point was found. -/
  | feasible
  /-- No point satisfies all rows. -/
  | infeasible
  /-- The objective can be made arbitrarily large. -/
  | unbounded
  deriving DecidableEq, Repr

/-- The answer to a canonical program. -/
structure Solution (α : Type) where
  status : Status
  /-- The value of every column, where there is an optimal point. -/
  values : Option (Coords α)
  /-- The greatest value of the objective: zero when infeasible, `+∞` when unbounded. -/
  objective : Extended α
  /-- How many pivots were made, those of phase one included. -/
  pivots : Nat
  deriving DecidableEq

namespace Solution

variable {α : Type} [Scalar α]

omit [Scalar α] in
/-- An optimal point with its value. -/
def feasible (values : Coords α) (objective : α) (pivots : Nat) : Solution α :=
  ⟨.feasible, some values, .value objective, pivots⟩

/-- No point satisfies all rows. -/
def infeasible (pivots : Nat) : Solution α := ⟨.infeasible, none, .value 0, pivots⟩

omit [Scalar α] in
/-- The objective has no greatest value. -/
def unbounded (pivots : Nat) : Solution α := ⟨.unbounded, none, .posInfinity, pivots⟩

omit [Scalar α] in
/-- Whether an optimal point was found. -/
def isFeasible (s : Solution α) : Bool := s.status = .feasible

end Solution

end LinProg
