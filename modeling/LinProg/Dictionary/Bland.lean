import LinProg.Dictionary.Pivot

/-!
Pivoting by the smallest index.

* `Choice`, `Dictionary.choice`: the first variable that improves the objective enters; of the
  rows that limit it most, the one of the smallest variable leaves.
* `Outcome`, `Dictionary.simplexWithin`: pivoting until nothing improves, within a number of
  pivots.
* `Dictionary.pivotLimit`, `Dictionary.simplex`: a number of pivots beyond the number of
  partitions, and the loop within it.
-/

namespace LinProg

/-- What the rule of the smallest index asks for. -/
inductive Choice where
  /-- No variable improves the objective. -/
  | optimal
  /-- A variable improves the objective and no row limits it. -/
  | unbounded (entering : Nat)
  /-- A variable improves the objective and a row limits it. -/
  | pivot (entering leaving : Nat)
  deriving DecidableEq, Repr

/-- How the pivoting loop ends. -/
inductive Outcome where
  | optimal
  | unbounded
  deriving DecidableEq, Repr

namespace Dictionary

variable {α : Type} [Scalar α]

/-! ### The choice -/

/-- The first nonbasic variable with a positive cost. -/
def entering? (d : Dictionary α) : Option Nat :=
  d.nonbasics.find? fun j => decide (0 < d.c.coord j)

/-- How far the variable `e` may grow before the basic variable `i` turns negative. -/
def ratio (d : Dictionary α) (e i : Nat) : α := d.b.coord i / d.a.get i e

/-- Whether a ratio is below the best one so far; without one, any ratio below `+∞` is. -/
def improves (best? : Option (Nat × α)) (ratio : α) : Bool :=
  match best? with
  | none => Scalar.belowTop ratio
  | some (_, best) => decide (ratio < best)

/-- The first row with the least ratio, among those that limit the variable `e`. -/
def tightest? (d : Dictionary α) (e : Nat) : Option (Nat × α) :=
  (d.basics.filter fun i => decide (0 < d.a.get i e)).foldl
    (fun best? i => if improves best? (d.ratio e i) then some (i, d.ratio e i) else best?) none

/-- The choice of the smallest index. -/
def choice (d : Dictionary α) : Choice :=
  match d.entering? with
  | none => .optimal
  | some e =>
    match d.tightest? e with
    | none => .unbounded e
    | some (l, _) => .pivot e l

/-! ### The loop -/

/-- Pivots until nothing improves, with at most `limit` pivots. -/
def simplexWithin (limit : Nat) (d : Dictionary α) : Traced α (Outcome × Dictionary α) :=
  match d.choice with
  | .optimal => return (.optimal, d)
  | .unbounded e => do
    Traced.emit (.unboundedAlong e)
    return (.unbounded, d)
  | .pivot e l =>
    match limit with
    | 0 => Traced.fail .pivotLimit
    | limit + 1 => do simplexWithin limit (← d.pivot e l)

/-- More pivots than a run can make that never comes back to a partition. -/
def pivotLimit (d : Dictionary α) : Nat := Nat.pow 2 (d.numVariables + 32)

/-- Pivots until nothing improves. -/
def simplex (d : Dictionary α) : Traced α (Outcome × Dictionary α) := d.simplexWithin d.pivotLimit

end Dictionary

end LinProg
