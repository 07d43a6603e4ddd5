import LinProg.Dictionary.Basic

/-!
Dictionaries as text: the objective, then a line for each basic variable. Coefficients within
the tolerance of zero are left out.
-/

namespace LinProg.Dictionary

/-- The terms of a sum over the nonbasic variables. -/
def termTexts (d : Dictionary Float) (coefficient : Nat → Float) : List String :=
  (d.nonbasics.filter fun j => decide (d.tolerance < (coefficient j).abs)).map fun j =>
    s!"({Decimal.fixed 6 (coefficient j)})x_{j}"

/-- The row of a basic variable. -/
def rowText (d : Dictionary Float) (i : Nat) : String :=
  let terms := " + ".intercalate (d.termTexts (d.a.get i))
  s!"\tx_{i} = {Decimal.fixed 6 (d.b.coord i)} - ( {terms} )\n"

/-- The dictionary as text. -/
def text (d : Dictionary Float) : String :=
  let objective := " + ".intercalate (Decimal.fixed 6 d.constant :: d.termTexts d.c.coord)
  s!"MAXIMIZE:\n\t{objective}\n\nCONSTRAINTS:\n" ++
    String.join (d.basics.map d.rowText)

end LinProg.Dictionary
