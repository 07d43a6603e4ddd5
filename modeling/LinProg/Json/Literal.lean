import LinProg.Json.Reader

/-!
Number literals.

* `Literal`, `Literal.text`: the parts of a number as it is written.
* `Literal.natural?`: the literals that are whole numbers of 64 bits.
* `Literal.magnitude?`, `Literal.toFloat`: the double that a literal stands for. The digits are
  taken as one whole number, as far as it fits into 64 bits, and that number is scaled by a
  power of ten.
* `Reader.literal`: reading one; a literal beyond the range of the doubles is malformed.
-/

namespace LinProg.Json

/-- A number as it is written. -/
structure Literal where
  negative : Bool
  whole : List Char
  fraction : Option (List Char)
  /-- The sign of the exponent, if one is written, and its digits. -/
  exponent : Option (Option Char × List Char)
  deriving DecidableEq, Repr

namespace Literal

/-- The number as it is written. -/
def text (l : Literal) : List Char :=
  (if l.negative then ['-'] else []) ++ l.whole ++
    (match l.fraction with
      | some digits => '.' :: digits
      | none => []) ++
    match l.exponent with
    | some (sign, digits) => 'e' :: sign.toList ++ digits
    | none => []

/-! ### Values -/

/-- The number beyond the largest of 64 bits. -/
def wordLimit : Nat := UInt64.size

/-- The value of a digit. -/
def digitValue (c : Char) : Nat := c.toNat - '0'.toNat

/-- The number that some digits stand for. -/
def digitsValue (digits : List Char) : Nat :=
  digits.foldl (fun n c => 10 * n + digitValue c) 0

/-- The literal as a natural number: one of 64 bits without sign, fraction and exponent. -/
def natural? (l : Literal) : Option Nat :=
  if !l.negative && l.fraction.isNone && l.exponent.isNone &&
      digitsValue l.whole < wordLimit then
    some (digitsValue l.whole)
  else none

/-- Appends digits to a number as long as it fits into 64 bits, and counts those that do. -/
def keepDigits (n : Nat) : List Char → Nat × Nat
  | [] => (n, 0)
  | c :: cs =>
    let next := 10 * n + digitValue c
    if next < wordLimit then
      let (kept, count) := keepDigits next cs
      (kept, count + 1)
    else (n, 0)

/-- The literal without its sign as a whole number of 64 bits and a power of ten: digits of the
whole part that do not fit raise the power, and those of the fraction that fit lower it. -/
def scientific (l : Literal) : Nat × Int :=
  let (whole, count) := keepDigits 0 l.whole
  let (significand, places) := keepDigits whole (l.fraction.getD [])
  let written : Int := match l.exponent with
    | some (some '-', digits) => -digitsValue digits
    | some (_, digits) => digitsValue digits
    | none => 0
  (significand, (l.whole.length - count : Nat) - places + written)

/-- The greatest power of ten among the doubles. -/
def greatestPower : Nat := 308

/-- The double nearest to a power of ten. -/
def powerOfTen (n : Nat) : Float := Float.ofScientific 1 false n

/-- A double divided by `10 ^ n`, in steps where that is no double. -/
def scaleDown (x : Float) (n : Nat) : Float :=
  if n ≤ greatestPower then x / powerOfTen n
  else if x == 0 then x
  else scaleDown (x / powerOfTen greatestPower) (n - greatestPower)
termination_by n
decreasing_by simp only [greatestPower] at *; omega

/-- A double times `10 ^ n`, if that is finite. A whole number stays as it is. -/
def scaleUp? (x : Float) (n : Nat) : Option Float :=
  if n = 0 then some x
  else if n ≤ greatestPower then
    let scaled := x * powerOfTen n
    if scaled.isInf then none else some scaled
  else if x == 0 then some x
  else none

/-- The double that the literal without its sign stands for, unless it is beyond all doubles. -/
def magnitude? (l : Literal) : Option Float :=
  let (significand, exponent) := l.scientific
  let x := Float.ofScientific significand false 0
  if exponent < 0 then some (scaleDown x exponent.natAbs) else scaleUp? x exponent.toNat

/-- The double that a literal stands for; zero keeps its sign. -/
def toFloat (l : Literal) : Float :=
  let magnitude := l.magnitude?.getD (1 / 0)
  if l.negative then -magnitude else magnitude

end Literal

/-! ### Reading -/

namespace Reader

/-- Reads the digits at the front. -/
def digits : Reader (List Char) := do
  let text ← get
  set (text.dropWhile Char.isDigit)
  return text.takeWhile Char.isDigit

/-- Reads the digits at the front, of which there has to be one. -/
def someDigits : Reader (List Char) := do
  let text ← digits
  if text.isEmpty then
    if (← get).isEmpty then throw .unfinished else throw .malformed
  else return text

/-- Reads the sign in front of a number. -/
def minus : Reader Bool := do
  if (← get).head? = some '-' then
    advance
    return true
  else return false

/-- Reads the whole part of a number, which has no zero in front of other digits. -/
def wholePart : Reader (List Char) := do
  let text ← someDigits
  if text.head? = some '0' ∧ 1 < text.length then throw .malformed else return text

/-- Reads the fraction of a number, if there is one. -/
def fraction : Reader (Option (List Char)) := do
  if (← get).head? = some '.' then
    advance
    return some (← someDigits)
  else return none

/-- Reads the sign of an exponent, if there is one. -/
def exponentSign : Reader (Option Char) := do
  match (← get).head? with
  | some '+' => do
    advance
    return some '+'
  | some '-' => do
    advance
    return some '-'
  | _ => return none

/-- Reads the exponent of a number, if there is one. -/
def exponent : Reader (Option (Option Char × List Char)) := do
  let head? := (← get).head?
  if head? = some 'e' ∨ head? = some 'E' then
    advance
    let sign ← exponentSign
    return some (sign, ← someDigits)
  else return none

/-- Reads a number, which has to be in the range of the doubles. -/
def literal : Reader Literal := do
  let l : Literal :=
    { negative := ← minus
      whole := ← wholePart
      fraction := ← fraction
      exponent := ← exponent }
  if l.magnitude?.isSome then return l else throw .malformed

/-- Passes over a number of any size. A number that ends too early is malformed here, since nothing
is asked of it but to be one. -/
def skipLiteral : Reader Unit := do
  let passed : Reader Unit := do
    discard minus
    discard wholePart
    discard fraction
    discard exponent
  fun text => (passed text).mapError fun _ => .malformed

end Reader

end LinProg.Json
