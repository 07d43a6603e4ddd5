import LinProg.Dictionary.Basic
import LinProg.Traced

/-!
The pivot: a nonbasic variable is made basic in the place of a basic one.

* `Dictionary.exchange`: the dictionary after the row of the leaving variable is solved for the
  entering one and put into all other rows and the objective. It is total: entry by entry, from
  the entries before. `get_exchange`, `coord_b_exchange` and `coord_c_exchange` read them off.
* `Dictionary.pivot`: the exchange where it is legal. The entering variable is nonbasic, the
  leaving one basic, and the coefficient between them is not zero.
-/

namespace LinProg.Dictionary

variable {α : Type} [Scalar α]

/-! ### The exchange -/

section Exchange

variable (d : Dictionary α) (e l : Nat)

/-- The coefficient of the entering variable in the row of the leaving one. -/
def pivotCell : α := d.a.get l e

/-- The right-hand side of the entering variable's row. -/
def solvedRhs : α := d.b.coord l / d.pivotCell e l

/-- The entering variable's row: the leaving variable's row divided by the pivot. -/
def solvedCell (j : Nat) : α :=
  if j = l then 1 / d.pivotCell e l
  else if j ≠ e ∧ d.isNonbasic j then d.a.get l j / d.pivotCell e l
  else d.a.get e j

/-- The matrix after the exchange. A basic row loses its multiple of the entering variable's row. -/
def exchangedCell (i j : Nat) : α :=
  if i = l then 0
  else if i = e then d.solvedCell e l j
  else if d.isBasic i then
    if j = e then 0
    else if j = l then -d.a.get i e * d.solvedCell e l l
    else if d.isNonbasic j then d.a.get i j - d.a.get i e * d.solvedCell e l j
    else d.a.get i j
  else d.a.get i j

/-- The right-hand sides after the exchange. -/
def exchangedRhs (i : Nat) : α :=
  if i = l then 0
  else if i = e then d.solvedRhs e l
  else if d.isBasic i then d.b.coord i - d.a.get i e * d.solvedRhs e l
  else d.b.coord i

/-- The costs after the exchange. -/
def exchangedCost (j : Nat) : α :=
  if j = e then 0
  else if j = l then -d.c.coord e * d.solvedCell e l l
  else if d.isNonbasic j then d.c.coord j - d.c.coord e * d.solvedCell e l j
  else d.c.coord j

/-- The dictionary after the exchange. -/
def exchange : Dictionary α :=
  let n := d.numVariables
  { d with
    a := DenseMatrix.ofFn n n (d.exchangedCell e l)
    b := Coords.tabulate n (d.exchangedRhs e l)
    c := Coords.tabulate n (d.exchangedCost e l)
    constant := d.constant + d.c.coord e * d.solvedRhs e l
    roles := (d.roles.setIfInBounds e .basic).setIfInBounds l .nonbasic
    pivots := d.pivots + 1 }

/-- The exchange keeps the number of variables. -/
@[simp] theorem numVariables_exchange : (d.exchange e l).numVariables = d.numVariables := by
  simp [exchange, numVariables]

/-- The entries of the matrix after the exchange. -/
theorem get_exchange {i j : Nat} (hi : i < d.numVariables) (hj : j < d.numVariables) :
    (d.exchange e l).a.get i j = d.exchangedCell e l i j :=
  DenseMatrix.get_ofFn _ hi hj

/-- The right-hand sides after the exchange. -/
theorem coord_b_exchange {i : Nat} (hi : i < d.numVariables) :
    (d.exchange e l).b.coord i = d.exchangedRhs e l i := by
  simp [exchange, hi]

/-- The costs after the exchange. -/
theorem coord_c_exchange {j : Nat} (hj : j < d.numVariables) :
    (d.exchange e l).c.coord j = d.exchangedCost e l j := by
  simp [exchange, hj]

end Exchange

/-! ### The pivot -/

/-- Whether the exchange is legal. -/
def checkPivot (d : Dictionary α) (e l : Nat) : Except Fault Unit := do
  let entering ← d.role e
  let leaving ← d.role l
  Fault.rolesMisplaced.unless (entering = .nonbasic && leaving = .basic)
  Fault.zeroPivot.unless (d.pivotCell e l != 0)

/-- Makes the nonbasic variable `e` basic in the place of `l`. -/
def pivot (d : Dictionary α) (e l : Nat) : Traced α (Dictionary α) := do
  d.checkPivot e l
  let next := d.exchange e l
  Traced.emit (.pivoted next.pivots e l next.constant)
  return next

end LinProg.Dictionary
