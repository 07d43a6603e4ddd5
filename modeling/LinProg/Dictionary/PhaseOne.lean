import LinProg.Dictionary.Bland

/-!
Phase one: a dictionary whose basic solution is feasible, or the proof that there is none.

An auxiliary variable is added to every row and made as small as it can be. If it can be made
zero, it is dropped and the objective is put back.

* `Dictionary.lowestRow?`: the row with the least right-hand side, if any is negative.
* `Dictionary.withAuxiliary`, `expelAuxiliary`, `withoutAuxiliary`: adding the auxiliary
  variable, making it nonbasic, and dropping it.
* `Dictionary.phaseOneWithin`, `Dictionary.phaseOne`: the phase as a whole.
-/

namespace LinProg.Dictionary

variable {α : Type} [Scalar α]

/-- The first basic variable with the least right-hand side, if that is negative. -/
def lowestRow? (d : Dictionary α) : Option Nat :=
  let step (lowest : α × Option Nat) (i : Nat) : α × Option Nat :=
    if d.b.coord i < lowest.1 then (d.b.coord i, some i) else lowest
  (d.basics.foldl step (0, none)).2

/-! ### The auxiliary variable -/

/-- Adds an auxiliary variable, the last one, to every row and makes its negation the objective. -/
def withAuxiliary (d : Dictionary α) : Dictionary α :=
  let n := d.numVariables
  let grown := d.a.reshaped (n + 1) (n + 1)
  { d with
    a := DenseMatrix.ofFn (n + 1) (n + 1) fun i j =>
      if j = n ∧ d.isBasic i then -1 else grown.get i j
    b := d.b.push 0
    c := Coords.tabulate (n + 1) fun j => if j = n then -1 else 0
    constant := 0
    roles := d.roles.push .nonbasic }

/-- The nonbasic variable with the coefficient of the greatest magnitude in the row `i`, if one
exceeds the tolerance. -/
def steepest? (d : Dictionary α) (i : Nat) : Option Nat :=
  let step (largest : α × Option Nat) (j : Nat) : α × Option Nat :=
    let magnitude := Scalar.abs (d.a.get i j)
    if largest.1 < magnitude then (magnitude, some j) else largest
  (d.nonbasics.foldl step (d.tolerance, none)).2

/-- Makes the last variable, the auxiliary one, nonbasic where a coefficient allows it. -/
def expelAuxiliary (d : Dictionary α) : Traced α (Dictionary α) :=
  let x0 := d.numVariables - 1
  if d.isBasic x0 then
    match d.steepest? x0 with
    | some j => do
      Traced.emit (.auxiliaryDegenerate j)
      d.pivot j x0
    | none => return d
  else return d

/-- Adds the multiple of a saved cost to an objective: the variable `i` itself where it is nonbasic,
else its row. -/
def addCost (d : Dictionary α) (cost : α) (objective : Coords α × α) (i : Nat) : Coords α × α :=
  let (c, constant) := objective
  if d.isBasic i then
    (Coords.tabulate c.size fun j =>
        if d.isNonbasic j then c.coord j - cost * d.a.get i j else c.coord j,
      constant + cost * d.b.coord i)
  else (c.modify i (· + cost), constant)

/-- The dictionary of the first `n` variables, still with the objective over all of them. -/
def truncate (d : Dictionary α) (n : Nat) : Dictionary α :=
  { d with
    a := d.a.reshaped n n
    b := d.b.extract 0 n
    roles := d.roles.extract 0 n }

/-- The objective of the dictionary `saved`, over the partition of another one. -/
def restoredObjective (d saved : Dictionary α) : Coords α × α :=
  saved.nonbasics.foldl (fun objective i => d.addCost (saved.c.coord i) objective i)
    (Coords.zeros saved.numVariables, saved.constant)

/-- The dictionary without its last variable, the auxiliary one, and with the objective of the
dictionary `saved` that the variable was added to, over the partition reached since. -/
def restore (d saved : Dictionary α) : Dictionary α :=
  let shrunk := d.truncate saved.numVariables
  let objective := shrunk.restoredObjective saved
  { shrunk with c := objective.1, constant := objective.2 }

/-- Drops the auxiliary variable, which has to be nonbasic, and puts back the objective. -/
def withoutAuxiliary (d saved : Dictionary α) : Except Fault (Dictionary α) := do
  Fault.auxiliaryBasic.unless !d.isBasic saved.numVariables
  return d.restore saved

/-! ### The phase -/

/-- Finds a dictionary whose basic solution is feasible and says whether there is one, with at most
`limit` pivots in its loop. -/
def phaseOneWithin (limit : Nat) (d : Dictionary α) : Traced α (Bool × Dictionary α) := do
  let some row := d.lowestRow? | return (true, d)
  Traced.emit (.phaseOneStarted row (d.b.coord row))
  let attached := d.withAuxiliary
  let entered ← attached.pivot d.numVariables row
  let (_, reached) ← entered.simplexWithin limit
  if reached.tolerance ≤ Scalar.abs reached.constant then
    Traced.emit (.phaseOneInfeasible reached.constant)
    return (false, reached)
  let driven ← reached.expelAuxiliary
  let restored ← driven.withoutAuxiliary d
  Traced.emit (.phaseOneFeasible restored.pivots restored.constant)
  return (true, restored)

/-- Finds a dictionary whose basic solution is feasible and says whether there is one. -/
def phaseOne (d : Dictionary α) : Traced α (Bool × Dictionary α) :=
  d.phaseOneWithin d.withAuxiliary.pivotLimit

end LinProg.Dictionary
