import LinProg.ColumnMap
import LinProg.Model.Constraint
import LinProg.Model.Objective
import LinProg.StandardForm

/-!
The canonical form of a model.

* `Relation.signs`, `Goal.sign`: the signs that turn every relation into `≤` and every goal into
  maximizing.
* `ColumnMap.expand`: a weighted sum of variables as a row of columns and a constant.
* `StandardForm.boundRows`, `StandardForm.constraintRows`: the rows of a model, each with its
  right-hand side.
* `StandardForm.ofModel`: the canonical program with the map of its columns.
-/

namespace LinProg

variable {α : Type} [Scalar α]

/-- The signs with which a constraint is written as `≤`: a constraint `≥` is negated, and an
equation is written both ways. -/
def Relation.signs : Relation → List α
  | .le => [1]
  | .ge => [-1]
  | .eq => [1, -1]

/-- The sign that turns an objective into one to be maximized. -/
def Goal.sign : Goal → α
  | .maximize => 1
  | .minimize => -1

/-- The substitution of a variable, which the model has to have. -/
def ColumnMap.find (map : ColumnMap α) (id : VariableId) :
    Except (ModelError α) (Substitution α) :=
  match map.substitution? id with
  | some s => .ok s
  | none => .error (.unknownVariable id.index)

/-- Adds a weighted sum with a sign to a row of columns, term by term. The constant that each term
leaves behind is combined with the one so far. -/
def ColumnMap.expand (map : ColumnMap α) (sign : α) (combine : α → α → α) (terms : Terms α)
    (start : Coords α × α) : Except (ModelError α) (Coords α × α) :=
  terms.foldlM (fun (row, constant) (id, weight) => do
    let s ← map.find id
    return (s.addTo (sign * weight) row, combine constant (s.offset (sign * weight)))) start

namespace StandardForm

/-- A variable with two finite bounds keeps its column below their distance. -/
def boundRow? (numColumns : Nat) (v : Variable α) (s : Substitution α) : Option (Coords α × α) :=
  match s, v.finiteUpper with
  | .shifted lower column, some upper => some (Coords.unit numColumns column, upper - lower)
  | _, _ => none

/-- The rows that keep the upper bounds. -/
def boundRows (vars : List (Variable α)) (map : ColumnMap α) : List (Coords α × α) :=
  (vars.zip map.substitutions).filterMap fun (v, s) => boundRow? map.numColumns v s

/-- The rows of a constraint: the constants of its variables move to the right-hand side. -/
def constraintRows (map : ColumnMap α) (constraint : Constraint α) :
    Except (ModelError α) (List (Coords α × α)) :=
  constraint.relation.signs.mapM fun sign =>
    map.expand sign (· - ·) constraint.terms (Coords.zeros map.numColumns, sign * constraint.rhs)

/-- The program with the given rows and costs. -/
def ofRows (rows : List (Coords α × α)) (costs : Coords α) (constant : α) : StandardForm α :=
  let cells := (rows.map Prod.fst).toArray
  { a := DenseMatrix.ofFn cells.size costs.size fun i j => (cells.getD i #[]).coord j
    b := (rows.map Prod.snd).toArray
    c := costs
    constant := constant }

/-- The canonical form of a model: the rows of the bounds, those of the constraints in order, and
the objective. -/
def ofModel (vars : List (Variable α)) (constraints : List (Constraint α))
    (objective? : Option (Objective α)) :
    Except (ModelError α) (StandardForm α × ColumnMap α) := do
  let some objective := objective? | throw .missingObjective
  let map := ColumnMap.ofVariables vars
  let rows ← constraints.mapM (constraintRows map)
  let (costs, constant) ← map.expand objective.goal.sign (· + ·) objective.terms
    (Coords.zeros map.numColumns, 0)
  return (ofRows (boundRows vars map ++ rows.flatten) costs constant, map)

end StandardForm

end LinProg
