/-!
Doubles as exact numbers.

* `Binary64`: what the bits of a double stand for. A finite one is `± mantissa · 2 ^ exponent`.
* `Binary64.ofBits`, `Binary64.ofFloat`: reading the sign, the eleven exponent bits and the
  fifty-two fraction bits.
-/

namespace LinProg

/-- What the bits of a double stand for. -/
inductive Binary64 where
  /-- No number. -/
  | nan
  /-- One of the two infinities. -/
  | infinite (negative : Bool)
  /-- The number `mantissa · 2 ^ exponent` with a sign; zero has a sign too. -/
  | finite (negative : Bool) (mantissa : Nat) (exponent : Int)
  deriving DecidableEq, Repr

namespace Binary64

/-- The least mantissa of a normal double. -/
def leastNormal : Nat := Nat.pow 2 52

/-- How many values the exponent bits take. -/
def biasedCount : Nat := Nat.pow 2 11

/-- The exponent of the last bit of every subnormal double, and of the smallest normal ones. -/
def leastExponent : Int := -1074

/-- Reads 64 bits, given as a number. -/
def ofBits (bits : Nat) : Binary64 :=
  let negative := bits / (leastNormal * biasedCount) % 2 == 1
  let biased := bits / leastNormal % biasedCount
  let fraction := bits % leastNormal
  if biased + 1 = biasedCount then
    if fraction = 0 then infinite negative else nan
  else if biased = 0 then
    finite negative fraction leastExponent
  else
    finite negative (leastNormal + fraction) (leastExponent + (biased - 1 : Nat))

/-- The exact number that a double stands for. -/
def ofFloat (x : Float) : Binary64 := ofBits x.toBits.toNat

end Binary64

end LinProg
