/-!
The numbers that linear programs are written and solved in.

* `Scalar`: the four operations, an order, a magnitude and a test for lying below `+∞`. No law
  is assumed: what is built on the class runs on doubles and can be read on exact rationals.
* `Scalar.isFinite`, `isTop`, `isBottom`: finiteness and the two infinities, from the one-sided
  test.
* `Scalar.sum`, `Scalar.largest`: the sum of a list and its largest member, both taken from the
  left.
-/

namespace LinProg

/-- Numbers with the operations of the simplex method, under no laws. -/
class Scalar (α : Type) extends
    Zero α, One α, Add α, Sub α, Mul α, Div α, Neg α, LT α, LE α, BEq α where
  /-- The strict order is decided. -/
  decideLt : ∀ x y : α, Decidable (x < y)
  /-- The order is decided. -/
  decideLe : ∀ x y : α, Decidable (x ≤ y)
  /-- The magnitude of a number. -/
  abs : α → α
  /-- Whether a number lies below `+∞`; a number that is not comparable does not. -/
  belowTop : α → Bool

namespace Scalar

variable {α : Type} [Scalar α]

instance : DecidableLT α := decideLt

instance : DecidableLE α := decideLe

/-- A number is finite when it and its negation lie below `+∞`. -/
def isFinite (x : α) : Bool := belowTop x && belowTop (-x)

/-- A number is `+∞` when it can be compared and does not lie below `+∞`. -/
def isTop (x : α) : Bool := x == x && !belowTop x

/-- A number is `-∞` when its negation is `+∞`. -/
def isBottom (x : α) : Bool := isTop (-x)

/-- The sum of a list from the left, from negative zero, so that the empty sum keeps its sign. -/
def sum (xs : List α) : α := xs.foldl (· + ·) (-0)

/-- The largest member of a list, at least zero; members that are not comparable are passed over. -/
def largest (xs : List α) : α := xs.foldl (fun best x => if best < x then x else best) 0

end Scalar

/-- Doubles: `+∞` is the quotient of one by zero. -/
instance : Scalar Float where
  toZero := inferInstance
  toOne := inferInstance
  decideLt := inferInstance
  decideLe := inferInstance
  abs := Float.abs
  belowTop x := decide (x < 1 / 0)

/-- Exact rationals: every number is finite. -/
instance : Scalar Rat where
  toZero := ⟨0⟩
  toOne := ⟨1⟩
  decideLt := inferInstance
  decideLe := inferInstance
  abs x := if x < 0 then -x else x
  belowTop _ := true

end LinProg
