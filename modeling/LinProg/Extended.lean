import LinProg.Scalar
import LinProg.Decimal.Layout

/-!
Numbers with the two infinities added, as the values an objective can take.

* `Extended`: the type, with `Extended.neg`.
* `Extended.number?`: the number, where the value is one.
* `Extended.toFloat`, `Extended.text`: the value as a double, and its text in messages.
-/

namespace LinProg

/-- A number or one of the two infinities. -/
inductive Extended (α : Type) where
  | negInfinity
  | value (x : α)
  | posInfinity
  deriving DecidableEq, Repr

namespace Extended

variable {α : Type} [Scalar α]

/-- The value with the other sign. -/
def neg : Extended α → Extended α
  | negInfinity => posInfinity
  | value x => value (-x)
  | posInfinity => negInfinity

omit [Scalar α] in
/-- The number, unless the value is infinite. -/
def number? : Extended α → Option α
  | value x => some x
  | _ => none

/-- The double with the same value. -/
def toFloat : Extended Float → Float
  | negInfinity => -(1 / 0)
  | value x => x
  | posInfinity => 1 / 0

/-- The text of the value in messages. -/
def text (x : Extended Float) : String := Decimal.plain x.toFloat

end Extended

end LinProg
