import LinProg.Decimal.Shortest

/-!
Texts of doubles.

* `Layout`, `Layout.text`: the shortest digits, laid out as a format asks.
* `plain`: the layout of messages and listings, which never writes an exponent.
* `fixed`: a given number of places, from the exact value of the double.
* `padLeft`, `padRight`: filling up to a width.
-/

namespace LinProg.Decimal

/-! ### Shortest digits -/

/-- The decisions of a format that writes the shortest digits. -/
structure Layout where
  /-- The least and the greatest exponent of the first digit for which the point is written in its
  place; all exponents, where none is given. -/
  positional : Option (Int × Int)
  /-- Whether a whole number keeps a point and a zero. -/
  pointZero : Bool
  /-- Whether an exponent that is not negative has a sign. -/
  exponentSign : Bool
  /-- Which digits are taken when two shortest decimals are equally near. -/
  tie : Tie
  deriving DecidableEq, Repr

namespace Layout

/-- Digits with the point in its place. -/
def positionalText (layout : Layout) (d : Digits) : List Char :=
  if d.point ≤ 0 then
    "0.".toList ++ List.replicate (-d.point).toNat '0' ++ d.digits
  else if d.digits.length ≤ d.point.toNat then
    d.digits ++ List.replicate (d.point.toNat - d.digits.length) '0' ++
      (if layout.pointZero then ".0".toList else [])
  else
    d.digits.take d.point.toNat ++ ['.'] ++ d.digits.drop d.point.toNat

/-- Digits with the point behind the first of them and the exponent of that digit. -/
def exponentText (layout : Layout) (d : Digits) : List Char :=
  let exponent := d.point - 1
  let sign := if exponent < 0 then ['-'] else if layout.exponentSign then ['+'] else []
  d.digits.take 1 ++ (if 1 < d.digits.length then '.' :: d.digits.drop 1 else []) ++
    'e' :: sign ++ Nat.toDigits 10 exponent.natAbs

/-- The text of digits that are not all zero. -/
def digitsText (layout : Layout) (d : Digits) : List Char :=
  match layout.positional with
  | none => layout.positionalText d
  | some (least, greatest) =>
    if least ≤ d.point - 1 ∧ d.point - 1 ≤ greatest then layout.positionalText d
    else layout.exponentText d

/-- The text of the finite number `mantissa · 2 ^ exponent` without its sign. -/
def magnitudeText (layout : Layout) (mantissa : Nat) (exponent : Int) : List Char :=
  if mantissa = 0 then
    if layout.pointZero then "0.0".toList else ['0']
  else layout.digitsText ((Span.ofFinite mantissa exponent).shortest layout.tie)

end Layout

/-- A magnitude with the sign in front. -/
def signed (negative : Bool) (magnitude : List Char) : List Char :=
  if negative then '-' :: magnitude else magnitude

/-- The text of a double, given the text of a finite magnitude. -/
def textWith (magnitude : Nat → Int → List Char) (x : Float) : String :=
  match Binary64.ofFloat x with
  | .nan => "NaN"
  | .infinite negative => String.ofList (signed negative "inf".toList)
  | .finite negative mantissa exponent =>
    String.ofList (signed negative (magnitude mantissa exponent))

/-- The text of a double in a layout. -/
def Layout.text (layout : Layout) (x : Float) : String := textWith layout.magnitudeText x

/-- The layout of messages and listings: the point is always in its place, and a whole number is
written without one. -/
def plainLayout : Layout where
  positional := none
  pointZero := false
  exponentSign := false
  tie := .up

/-- The text of a double in messages and listings. -/
def plain (x : Float) : String := plainLayout.text x

/-! ### A fixed number of places -/

/-- The number `mantissa · 2 ^ exponent` rounded to a number of places, a tie going to the even
neighbour. -/
def fixedMagnitude (places : Nat) (mantissa : Nat) (exponent : Int) : List Char :=
  let num := mantissa * Nat.pow 2 exponent.toNat * Nat.pow 10 places
  let units := roundDiv .toEven num (Nat.pow 2 (-exponent).toNat)
  let written := Nat.toDigits 10 units
  let digits := List.replicate (places + 1 - written.length) '0' ++ written
  let whole := digits.length - places
  digits.take whole ++ (if places = 0 then [] else '.' :: digits.drop whole)

/-- The text of a double with a fixed number of places. -/
def fixed (places : Nat) (x : Float) : String := textWith (fixedMagnitude places) x

/-! ### Widths -/

/-- Fills a text with spaces in front, up to a number of characters. -/
def padLeft (width : Nat) (text : String) : String := "".pushn ' ' (width - text.length) ++ text

/-- Fills a text with spaces behind, up to a number of characters. -/
def padRight (width : Nat) (text : String) : String := text.pushn ' ' (width - text.length)

end LinProg.Decimal
