import LinProg.Decimal.Binary64
import LinProg.Decimal.Rounding

/-!
The shortest decimal that reads back as a given double, and of the shortest ones the nearest.

* `Digits`: decimal digits with the place of the point.
* `Span`, `Span.ofFinite`: the reals that round to a double, around the double itself.
* `Span.nearestAt?`: the nearer of the two decimals of a given last place around the double, of
  those that lie in the span.
* `Span.shortest`: the grids of one to seventeen digits are tried in turn, and the first one
  with a neighbour inside the span decides. It is enough to try the two neighbours: a span holds
  a point of a grid only if it holds one of them.
-/

namespace LinProg.Decimal

/-- The decimal `0.d₁d₂… · 10 ^ point`, with no zeros at its end. -/
structure Digits where
  digits : List Char
  point : Int
  deriving DecidableEq, Repr

/-- The digits of `significand · 10 ^ exponent`, with the zeros at the end dropped. -/
def Digits.ofScientific (significand : Nat) (exponent : Int) : Digits :=
  let written := Nat.toDigits 10 significand
  { digits := (written.reverse.dropWhile (· == '0')).reverse
    point := exponent + written.length }

/-- The reals between `low / den` and `high / den`, around the number `mid / den`. -/
structure Span where
  low : Nat
  mid : Nat
  high : Nat
  den : Nat
  /-- Whether the two ends belong to the span. -/
  closed : Bool
  deriving DecidableEq, Repr

namespace Span

/-- The reals that round to the double `mantissa · 2 ^ exponent`. They reach half-way to the next
double on each side; below a power of two the doubles are twice as dense. A real half-way between
two doubles goes to the one with the even mantissa. -/
def ofFinite (mantissa : Nat) (exponent : Int) : Span :=
  let scale := Nat.pow 2 exponent.toNat
  let dense := mantissa = Binary64.leastNormal ∧ Binary64.leastExponent < exponent
  { low := (4 * mantissa - if dense then 1 else 2) * scale
    mid := 4 * mantissa * scale
    high := (4 * mantissa + 2) * scale
    den := 4 * Nat.pow 2 (-exponent).toNat
    closed := mantissa % 2 == 0 }

/-- Whether `significand · 10 ^ exponent` lies in the span. -/
def holds (s : Span) (exponent : Int) (significand : Nat) : Bool :=
  let point := significand * Nat.pow 10 exponent.toNat * s.den
  let scale := Nat.pow 10 (-exponent).toNat
  if s.closed then s.low * scale ≤ point && point ≤ s.high * scale
  else s.low * scale < point && point < s.high * scale

/-- The exponent of the first digit of the number in the middle of the span. -/
def leadingExponent (s : Span) : Int :=
  if s.den ≤ s.mid then
    (Nat.toDigits 10 (s.mid / s.den)).length - 1
  else
    let places := (Nat.toDigits 10 (s.den / s.mid)).length
    if s.den ≤ s.mid * Nat.pow 10 (places - 1) then 1 - places else -places

/-- The nearest decimal to the number in the middle of the span that lies in the span and has its
last digit at the place `exponent`, if there is one. -/
def nearestAt? (s : Span) (tie : Tie) (exponent : Int) : Option Nat :=
  let num := s.mid * Nat.pow 10 (-exponent).toNat
  let den := s.den * Nat.pow 10 exponent.toNat
  let below := num / den
  match s.holds exponent below, s.holds exponent (below + 1) with
  | true, true => some (roundDiv tie num den)
  | true, false => some below
  | false, true => some (below + 1)
  | false, false => none

/-- The shortest decimal in the span, and of these the nearest to its middle. Seventeen digits are
enough for every double. -/
def shortest (s : Span) (tie : Tie) : Digits :=
  let place (n : Nat) : Int := s.leadingExponent - n
  let found := (List.range 17).findSome? fun n =>
    (s.nearestAt? tie (place n)).map (Digits.ofScientific · (place n))
  found.getD (Digits.ofScientific (s.mid / s.den) 0)

end Span

end LinProg.Decimal
