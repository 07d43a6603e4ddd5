/-!
Rounding a quotient of natural numbers to a whole number.

* `Tie`: which way a quotient half-way between two whole numbers goes.
* `roundDiv`: the nearest whole number to a quotient.
-/

namespace LinProg.Decimal

/-- Which neighbour is taken when two are equally near. -/
inductive Tie where
  /-- The even one. -/
  | toEven
  /-- The greater one. -/
  | up
  deriving DecidableEq, Repr

/-- Of the neighbours `n` and `n + 1`, the nearer one, for a number whose distance to `n` compares
with a half as `position` says. -/
def Tie.nearer (tie : Tie) (n : Nat) (position : Ordering) : Nat :=
  match position with
  | .lt => n
  | .gt => n + 1
  | .eq => match tie with
    | .toEven => if n % 2 = 0 then n else n + 1
    | .up => n + 1

/-- The whole number nearest to `num / den`. -/
def roundDiv (tie : Tie) (num den : Nat) : Nat :=
  tie.nearer (num / den) (compare (2 * (num % den)) den)

end LinProg.Decimal
