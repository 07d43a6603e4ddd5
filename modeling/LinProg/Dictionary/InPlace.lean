import LinProg.Dictionary.Solve

/-!
The engine on one dictionary that is changed cell by cell, with every index checked.

* `InPlace.ofStandardForm`: the rows of a program are copied into a zero matrix.
* `InPlace.pivot`: the row of the leaving variable is solved for the entering one, which is then put
  into the other rows and the objective; `InPlace.exchange` does so in this order.
* `InPlace.choice`, `InPlace.simplexWithin`: the choice of the smallest index and the loop.
* `InPlace.attach`, `expel`, `detach`, `phaseOneWithin`: the auxiliary variable and phase one.
* `InPlace.assignment`, `InPlace.solveWithin`: the values of all variables, and both phases.
* `InPlace.run`: both phases on the dictionary of a program.
-/

namespace LinProg.Dictionary.InPlace

variable {α : Type} [Scalar α]

/-! ### The dictionary of a program -/

/-- Copies row `i` of a program with its right-hand side to the row of its slack. -/
def copyRow (form : StandardForm α) (state : DenseMatrix α × Coords α) (i : Nat) :
    Except Fault (DenseMatrix α × Coords α) := do
  let (a, b) := state
  let cells ← form.a.rowSlice i
  Fault.shapeMismatch.unless (cells.size == form.numColumns)
  let a ← a.overwriteRow (form.numColumns + i) cells
  let b ← b.store (form.numColumns + i) (← form.b.entry i)
  return (a, b)

/-- The dictionary of a program in which the slacks are basic. -/
def ofStandardForm (form : StandardForm α) (tolerance : α) : Except Fault (Dictionary α) := do
  let n := form.numColumns
  let size := n + form.numRows
  let (a, b) ← (List.range form.numRows).foldlM (copyRow form)
    (DenseMatrix.zeros size size, Coords.zeros size)
  return {
    a := a
    b := b
    c := form.c.resized size
    constant := form.constant
    roles := Array.replicate n .nonbasic ++ Array.replicate form.numRows .basic
    numRows := form.numRows
    numColumns := n
    tolerance := tolerance
    pivots := 0 }

/-! ### Loops over the nonbasic variables -/

omit [Scalar α] in
/-- Whether a variable, which the dictionary has to have, is basic. -/
def isBasic (d : Dictionary α) (j : Nat) : Except Fault Bool := return (← d.role j) = .basic

omit [Scalar α] in
/-- Takes a step where the variable `j` is nonbasic. -/
def whenNonbasic {σ : Type} (d : Dictionary α) (step : σ → Nat → Except Fault σ) (state : σ)
    (j : Nat) : Except Fault σ := do
  if ← isBasic d j then return state else step state j

omit [Scalar α] in
/-- Takes a step for each nonbasic variable other than `e`, in ascending order. -/
def forOthers {σ : Type} (d : Dictionary α) (e : Nat) (step : σ → Nat → Except Fault σ)
    (start : σ) : Except Fault σ :=
  (List.range d.numVariables).foldlM
    (fun state j => if j = e then return state else whenNonbasic d step state j) start

/-! ### The pivot -/

/-- Writes the cell of row `l` in column `j`, divided by the pivot, into row `e`. -/
def solveCell (e l : Nat) (pivot : α) (a : DenseMatrix α) (j : Nat) :
    Except Fault (DenseMatrix α) := do
  a.set e j ((← a.entry l j) / pivot)

/-- Takes a multiple of the cell of row `e` in column `j` away from row `i`. -/
def substituteCell (e i : Nat) (factor : α) (a : DenseMatrix α) (j : Nat) :
    Except Fault (DenseMatrix α) := do
  a.set i j ((← a.entry i j) - factor * (← a.entry e j))

/-- Takes a multiple of the cell of row `i` in column `j` away from the costs. -/
def substituteCost (a : DenseMatrix α) (i : Nat) (cost : α) (c : Coords α) (j : Nat) :
    Except Fault (Coords α) := do
  c.store j ((← c.entry j) - cost * (← a.entry i j))

/-- Solves the row of `l` for the variable `e` and writes the result into the row of `e`. -/
def solveRow (d : Dictionary α) (e l : Nat) : Except Fault (Dictionary α) := do
  let pivot ← d.a.entry l e
  let b ← d.b.store e ((← d.b.entry l) / pivot)
  let a ← forOthers d e (solveCell e l pivot) d.a
  let a ← a.set e l (1 / pivot)
  return { d with a := a, b := b }

/-- Puts the row of `e` into the row of `i`. -/
def substituteRow (e l : Nat) (d : Dictionary α) (i : Nat) : Except Fault (Dictionary α) := do
  let factor ← d.a.entry i e
  let shift := factor * (← d.b.entry e)
  let b ← d.b.store i ((← d.b.entry i) - shift)
  let a ← forOthers d e (substituteCell e i factor) d.a
  let a ← a.set i l (-factor * (← a.entry e l))
  let a ← a.set i e 0
  return { d with a := a, b := b }

/-- Puts the row of `e` into the row of `i`, if this is a basic one and not that of `l`. -/
def substituteBasic (e l : Nat) (d : Dictionary α) (i : Nat) : Except Fault (Dictionary α) := do
  if i = l then return d
  else if ← isBasic d i then substituteRow e l d i
  else return d

/-- Puts the row of `e` into all basic rows other than that of `l`. -/
def substituteRows (d : Dictionary α) (e l : Nat) : Except Fault (Dictionary α) :=
  (List.range d.numVariables).foldlM (substituteBasic e l) d

/-- Puts the row of `e` into the objective. -/
def substituteObjective (d : Dictionary α) (e l : Nat) : Except Fault (Dictionary α) := do
  let cost ← d.c.entry e
  let constant := d.constant + cost * (← d.b.entry e)
  let c ← forOthers d e (substituteCost d.a e cost) d.c
  let c ← c.store l (-cost * (← d.a.entry e l))
  let c ← c.store e 0
  return { d with c := c, constant := constant }

/-- Clears the row of `l` and makes `e` basic in its place. -/
def exchangeRoles (d : Dictionary α) (e l : Nat) : Except Fault (Dictionary α) := do
  let a ← d.a.overwriteRow l (Coords.zeros d.a.cols)
  let b ← d.b.store l 0
  let roles ← Coords.store d.roles e .basic
  let roles ← Coords.store roles l .nonbasic
  return { d with a := a, b := b, roles := roles, pivots := d.pivots + 1 }

/-- The dictionary after the exchange of two variables. -/
def exchange (d : Dictionary α) (e l : Nat) : Except Fault (Dictionary α) := do
  let d ← solveRow d e l
  let d ← substituteRows d e l
  let d ← substituteObjective d e l
  exchangeRoles d e l

/-- Whether the exchange is legal. -/
def checkPivot (d : Dictionary α) (e l : Nat) : Except Fault Unit := do
  let entering ← isBasic d e
  let leaving ← isBasic d l
  Fault.rolesMisplaced.unless (!entering && leaving)
  Fault.zeroPivot.unless ((← d.a.entry l e) != 0)

/-- Makes the nonbasic variable `e` basic in the place of `l`. -/
def pivot (d : Dictionary α) (e l : Nat) : Traced α (Dictionary α) := do
  checkPivot d e l
  let next ← exchange d e l
  Traced.emit (.pivoted next.pivots e l next.constant)
  return next

/-! ### The choice and the loop -/

/-- The first nonbasic variable with a positive cost. -/
def entering? (d : Dictionary α) : Except Fault (Option Nat) :=
  d.nonbasics.findM? fun j => return decide (0 < (← d.c.entry j))

/-- Compares the row of `i` with the best one so far, where it limits the variable `e`. -/
def compareRow (d : Dictionary α) (e : Nat) (best? : Option (Nat × α)) (i : Nat) :
    Except Fault (Option (Nat × α)) := do
  let coefficient ← d.a.entry i e
  if 0 < coefficient then
    let ratio := (← d.b.entry i) / coefficient
    return if improves best? ratio then some (i, ratio) else best?
  else return best?

/-- The choice of the smallest index. -/
def choice (d : Dictionary α) : Except Fault Choice := do
  match ← entering? d with
  | none => return .optimal
  | some e =>
    match ← d.basics.foldlM (compareRow d e) none with
    | none => return .unbounded e
    | some (l, _) => return .pivot e l

/-- Pivots until nothing improves, with at most `limit` pivots. -/
def simplexWithin (limit : Nat) (d : Dictionary α) : Traced α (Outcome × Dictionary α) := do
  match ← choice d with
  | .optimal => return (.optimal, d)
  | .unbounded e => do
    Traced.emit (.unboundedAlong e)
    return (.unbounded, d)
  | .pivot e l =>
    match limit with
    | 0 => Traced.fail .pivotLimit
    | limit + 1 => do simplexWithin limit (← pivot d e l)

/-! ### Phase one -/

/-- The first basic variable with the least right-hand side, if that is negative. -/
def lowestRow? (d : Dictionary α) : Except Fault (Option Nat) := do
  let step (lowest : α × Option Nat) (i : Nat) : Except Fault (α × Option Nat) := do
    let rhs ← d.b.entry i
    return if rhs < lowest.1 then (rhs, some i) else lowest
  return (← d.basics.foldlM step (0, none)).2

/-- Writes minus one into the last cell of row `i`, if this is a basic one. -/
def attachCell (d : Dictionary α) (n : Nat) (a : DenseMatrix α) (i : Nat) :
    Except Fault (DenseMatrix α) := do
  if ← isBasic d i then a.set i n (-1) else return a

/-- Adds an auxiliary variable, the last one, to every row and makes its negation the objective. -/
def attach (d : Dictionary α) : Except Fault (Dictionary α) := do
  let n := d.numVariables
  let grown ← d.a.reshape (n + 1) (n + 1)
  let next : Dictionary α := { d with b := d.b.push 0, roles := d.roles.push .nonbasic }
  let a ← (List.range n).foldlM (attachCell next n) grown
  let c ← (Coords.zeros (n + 1)).store n (-1)
  return { next with a := a, c := c, constant := 0 }

/-- The nonbasic variable with the coefficient of the greatest magnitude in the row `i`, if one
exceeds the tolerance. -/
def steepest? (d : Dictionary α) (i : Nat) : Except Fault (Option Nat) := do
  let step (largest : α × Option Nat) (j : Nat) : Except Fault (α × Option Nat) := do
    let magnitude := Scalar.abs (← d.a.entry i j)
    return if largest.1 < magnitude then (magnitude, some j) else largest
  return (← d.nonbasics.foldlM step (d.tolerance, none)).2

/-- Makes the last variable, the auxiliary one, nonbasic where a coefficient allows it. -/
def expel (d : Dictionary α) : Traced α (Dictionary α) := do
  let x0 := d.numVariables - 1
  if ← isBasic d x0 then
    match ← steepest? d x0 with
    | some j => do
      Traced.emit (.auxiliaryDegenerate j)
      pivot d j x0
    | none => return d
  else return d

/-- Adds the multiple of a saved cost to an objective over `n` variables. -/
def addCost (d : Dictionary α) (n : Nat) (cost : α) (objective : Coords α × α) (i : Nat) :
    Except Fault (Coords α × α) := do
  let (c, constant) := objective
  if ← isBasic d i then
    let constant := constant + cost * (← d.b.entry i)
    let c ← (List.range n).foldlM (whenNonbasic d (substituteCost d.a i cost)) c
    return (c, constant)
  else
    let c ← c.store i ((← c.entry i) + cost)
    return (c, constant)

/-- Adds the multiple of the cost that a variable has in the dictionary `saved`. -/
def restoreCost (d saved : Dictionary α) (objective : Coords α × α) (i : Nat) :
    Except Fault (Coords α × α) := do
  addCost d saved.numVariables (← saved.c.entry i) objective i

/-- Drops the auxiliary variable, which has to be nonbasic, and puts back the objective of the
dictionary `saved`. -/
def detach (d saved : Dictionary α) : Except Fault (Dictionary α) := do
  let n := saved.numVariables
  Fault.auxiliaryBasic.unless !(← isBasic d n)
  let shrunk : Dictionary α :=
    { d with a := ← d.a.reshape n n, b := d.b.extract 0 n, roles := d.roles.extract 0 n }
  let (c, constant) ← saved.nonbasics.foldlM (restoreCost shrunk saved)
    (Coords.zeros n, saved.constant)
  return { shrunk with c := c, constant := constant }

/-- Finds a dictionary whose basic solution is feasible and says whether there is one, with at most
`limit` pivots in its loop. -/
def phaseOneWithin (limit : Nat) (d : Dictionary α) : Traced α (Bool × Dictionary α) := do
  let some row ← lowestRow? d | return (true, d)
  Traced.emit (.phaseOneStarted row (← d.b.entry row))
  let attached ← attach d
  let entered ← pivot attached (attached.numVariables - 1) row
  let (_, reached) ← simplexWithin limit entered
  if reached.tolerance ≤ Scalar.abs reached.constant then
    Traced.emit (.phaseOneInfeasible reached.constant)
    return (false, reached)
  let driven ← expel reached
  let restored ← detach driven d
  Traced.emit (.phaseOneFeasible restored.pivots restored.constant)
  return (true, restored)

/-! ### Both phases -/

/-- The value of a variable where the nonbasic ones have the values in `v`. -/
def valueOf (d : Dictionary α) (v : Coords α) (i : Nat) : Except Fault α := do
  if ← isBasic d i then
    let row ← d.a.rowSlice i
    let rhs ← d.b.entry i
    let terms ← d.nonbasics.mapM fun j => return (← row.entry j) * (← v.entry j)
    return rhs - Scalar.sum terms
  else v.entry i

/-- The values of all variables where the nonbasic ones have the values in `v`. -/
def assignment (d : Dictionary α) (v : Coords α) : Except Fault (Coords α) := do
  return (← (List.range d.numVariables).mapM (valueOf d v)).toArray

/-- Runs both phases, each with at most so many pivots in its loop. -/
def solveWithin (limit₁ limit₂ : Nat) (d : Dictionary α) :
    Traced α (Solution α × Dictionary α) := do
  let (found, ready) ← phaseOneWithin limit₁ d
  if !found then
    return (.infeasible ready.pivots, ready)
  let (outcome, last) ← simplexWithin limit₂ ready
  match outcome with
  | .unbounded => return (.unbounded last.pivots, last)
  | .optimal => do
    let values ← assignment last (Coords.zeros last.numVariables)
    Traced.emit (.optimumReached last.pivots last.constant)
    return (.feasible (values.extract 0 last.numColumns) last.constant last.pivots, last)

/-- Runs both phases on the dictionary of a program. -/
def run (form : StandardForm α) (tolerance : α) (limit₁ limit₂ : Nat) :
    Traced α (Solution α × Dictionary α) := do
  solveWithin limit₁ limit₂ (← ofStandardForm form tolerance)

end LinProg.Dictionary.InPlace
