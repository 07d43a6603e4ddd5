import LinProg.Dictionary.PhaseOne
import LinProg.Dictionary.Point

/-!
Solving a dictionary and a canonical program.

* `Dictionary.solveWithin`, `Dictionary.solve`: both phases, then the basic solution that is
  reached.
* `Solver`, `Solver.solve`: the tolerance of phase one, and the solution of a program from the
  dictionary in which its slacks are basic.
-/

namespace LinProg

variable {α : Type} [Scalar α]

namespace Dictionary

/-- The solution that an optimal dictionary shows: its columns are read off the basic solution. -/
def optimum (d : Dictionary α) : Solution α :=
  .feasible (d.basicSolution.extract 0 d.numColumns) d.constant d.pivots

/-- Runs both phases, each with at most so many pivots in its loop. -/
def solveWithin (limit₁ limit₂ : Nat) (d : Dictionary α) :
    Traced α (Solution α × Dictionary α) := do
  let (found, ready) ← d.phaseOneWithin limit₁
  if !found then
    return (.infeasible ready.pivots, ready)
  let (outcome, last) ← ready.simplexWithin limit₂
  match outcome with
  | .unbounded => return (.unbounded last.pivots, last)
  | .optimal => do
    Traced.emit (.optimumReached last.pivots last.constant)
    return (last.optimum, last)

/-- Runs both phases. -/
def solve (d : Dictionary α) : Traced α (Solution α × Dictionary α) :=
  d.solveWithin d.withAuxiliary.pivotLimit d.pivotLimit

end Dictionary

/-- A solver of canonical programs. -/
structure Solver (α : Type) where
  /-- How far from zero phase one may end. -/
  tolerance : α
  deriving DecidableEq, Repr

namespace Solver

/-- The solver with the usual tolerance. -/
def standard : Solver Float := ⟨1e-7⟩

/-- Solves a program. -/
def solve (solver : Solver α) (form : StandardForm α) : Traced α (Solution α) := do
  return (← (Dictionary.ofStandardForm form solver.tolerance).solve).1

end Solver

end LinProg
