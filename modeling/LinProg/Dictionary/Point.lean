import LinProg.Dictionary.Basic

/-!
Points of a dictionary.

* `Dictionary.assignment`: the values of all variables from those of the nonbasic ones;
  `Dictionary.basicSolution` is the one where these are zero.
* `Dictionary.objectiveAt`: the objective of the dictionary at a point.
* `Dictionary.largestResidual`: how far a point is from the rows of a canonical program.
* `assignmentOf`, `objectiveOf`, `largestResidualOf`: the same, with the length of the point
  checked.
-/

namespace LinProg.Dictionary

variable {α : Type} [Scalar α]

/-! ### Values -/

/-- The sum over the nonbasic variables of a coefficient times the value of the variable. -/
def nonbasicSum (d : Dictionary α) (coefficient : Nat → α) (v : Coords α) : α :=
  Scalar.sum (d.nonbasics.map fun j => coefficient j * v.coord j)

/-- The values of all variables where the nonbasic ones have the values in `v`. -/
def assignment (d : Dictionary α) (v : Coords α) : Coords α :=
  Coords.tabulate d.numVariables fun i =>
    if d.isBasic i then d.b.coord i - d.nonbasicSum (d.a.get i) v else v.coord i

/-- The values of all variables where the nonbasic ones are zero. -/
def basicSolution (d : Dictionary α) : Coords α := d.assignment (Coords.zeros d.numVariables)

/-- The objective of the dictionary at a point. -/
def objectiveAt (d : Dictionary α) (x : Coords α) : α := d.constant + d.nonbasicSum d.c.coord x

/-- The auxiliary variable at a point, zero where the point has none. -/
def auxiliaryAt (d : Dictionary α) (x : Coords α) : α := x.coord (d.numColumns + d.numRows)

/-- How far the slack of a row is from what the row of the program leaves of its right-hand side. -/
def residual (d : Dictionary α) (form : StandardForm α) (x : Coords α) (r : Nat) : α :=
  let lhs := Scalar.sum (((form.a.rowCells r).zip x).toList.map fun (a, value) => a * value)
  Scalar.abs (x.coord (d.numColumns + r) - (form.b.coord r - lhs + d.auxiliaryAt x))

/-- The largest distance of a point from the rows of a program. -/
def largestResidual (d : Dictionary α) (form : StandardForm α) (x : Coords α) : α :=
  Scalar.largest ((List.range d.numRows).map (d.residual form x))

/-! ### Checked lengths -/

omit [Scalar α] in
/-- Whether a vector has an entry for every nonbasic variable. -/
def coversNonbasics (d : Dictionary α) (v : Coords α) : Bool := d.nonbasics.all (· < v.size)

/-- `assignment`, for a vector with an entry for every nonbasic variable. -/
def assignmentOf (d : Dictionary α) (v : Coords α) : Except Fault (Coords α) := do
  Fault.indexOutOfRange.unless (d.coversNonbasics v)
  return d.assignment v

/-- `objectiveAt`, for a point with an entry for every nonbasic variable. -/
def objectiveOf (d : Dictionary α) (x : Coords α) : Except Fault α := do
  Fault.indexOutOfRange.unless (d.coversNonbasics x)
  return d.objectiveAt x

/-- `largestResidual`, for a point with an entry for every slack and a program with every row. -/
def largestResidualOf (d : Dictionary α) (form : StandardForm α) (x : Coords α) :
    Except Fault α := do
  let reaches (r : Nat) : Bool :=
    form.a.hasRow r && r < form.b.size && d.numColumns + r < x.size
  Fault.indexOutOfRange.unless ((List.range d.numRows).all reaches)
  return d.largestResidual form x

end LinProg.Dictionary
