import LinProg.ColumnMap
import LinProg.Json.Record
import LinProg.Model.Constraint
import LinProg.Model.Objective
import LinProg.Solution
import LinProg.StandardForm

/-!
JSON forms of the values of the library.

Each type has a written form, `write`, and a reader, `read`; the entities of a model are only
written. Nothing is validated on reading: the dimensions of a matrix need not fit its entries.
-/

namespace LinProg

open Json (Reader Members Field Variant writeObject writeList writeNumber writeNatural quote)

variable {α : Type} [Json.NumberText α]

/-! ### Small values -/

namespace VariableId

/-- A handle is its index. -/
def write (id : VariableId) : List Char := writeNatural id.index

/-- Reads a handle. -/
def read : Reader VariableId := return ⟨← Reader.natural⟩

end VariableId

namespace Relation

/-- A relation is its symbol. -/
def write (r : Relation) : List Char := quote r.symbol

/-- Reads a relation. -/
def read : Reader Relation :=
  Reader.choice ([.le, .ge, .eq].map fun r => Variant.unit r.symbol r)

end Relation

namespace Goal

/-- The name of a goal. -/
def name : Goal → String
  | maximize => "maximize"
  | minimize => "minimize"

/-- A goal is its name. -/
def write (g : Goal) : List Char := quote g.name

/-- Reads a goal. -/
def read : Reader Goal := Reader.choice ([.maximize, .minimize].map fun g => Variant.unit g.name g)

end Goal

namespace Status

/-- The name of a status. -/
def name : Status → String
  | feasible => "feasible"
  | infeasible => "infeasible"
  | unbounded => "unbounded"

/-- A status is its name. -/
def write (s : Status) : List Char := quote s.name

/-- Reads a status. -/
def read : Reader Status :=
  Reader.choice ([.feasible, .infeasible, .unbounded].map fun s => Variant.unit s.name s)

end Status

namespace Coords

/-- A vector is the list of its entries. -/
def write (v : Coords α) : List Char := writeList writeNumber v.toList

/-- Reads a vector. -/
def read : Reader (Coords α) := return (← Reader.list Reader.number).toArray

end Coords

/-! ### Programs and their solutions -/

namespace DenseMatrix

/-- A matrix is its dimensions and its entries. -/
def write (m : DenseMatrix α) : List Char :=
  writeObject [("rows", writeNatural m.rows), ("cols", writeNatural m.cols), ("data", m.data.write)]

/-- The parts of a matrix. -/
def members : Members (Option Nat × Option Nat × Option (Coords α)) (Nat × Nat × Coords α) :=
  .and (.one (.required "rows" Reader.natural)) <|
    .and (.one (.required "cols" Reader.natural)) (.one (.required "data" Coords.read))

/-- Reads a matrix. -/
def read : Reader (DenseMatrix α) := do
  let (rows, cols, data) ← Reader.record members
  return ⟨rows, cols, data⟩

end DenseMatrix

namespace StandardForm

/-- A program is its matrix, right-hand sides, costs and constant. -/
def write (form : StandardForm α) : List Char :=
  writeObject [("a", form.a.write), ("b", form.b.write), ("c", form.c.write),
    ("constant", writeNumber form.constant)]

/-- The parts of a program. -/
def members : Members
    (Option (DenseMatrix α) × Option (Coords α) × Option (Coords α) × Option α)
    (DenseMatrix α × Coords α × Coords α × α) :=
  .and (.one (.required "a" DenseMatrix.read)) <|
    .and (.one (.required "b" Coords.read)) <|
      .and (.one (.required "c" Coords.read)) (.one (.required "constant" Reader.number))

/-- Reads a program. -/
def read : Reader (StandardForm α) := do
  let (a, b, c, constant) ← Reader.record members
  return ⟨a, b, c, constant⟩

end StandardForm

namespace Substitution

/-- A substitution is its kind with its parts. -/
def write : Substitution α → List Char
  | shifted lower column =>
    writeObject [("Shifted", writeObject [("lower", writeNumber lower),
      ("column", writeNatural column)])]
  | reflected upper column =>
    writeObject [("Reflected", writeObject [("upper", writeNumber upper),
      ("column", writeNatural column)])]
  | split positive negative =>
    writeObject [("Split", writeObject [("positive", writeNatural positive),
      ("negative", writeNatural negative)])]

/-- The parts of a substitution with one bound and one column. -/
def boundMembers (bound : String) : Members (Option α × Option Nat) (α × Nat) :=
  .and (.one (.required bound Reader.number)) (.one (.required "column" Reader.natural))

/-- The parts of a substitution with two columns. -/
def splitMembers : Members (Option Nat × Option Nat) (Nat × Nat) :=
  .and (.one (.required "positive" Reader.natural)) (.one (.required "negative" Reader.natural))

/-- Reads a substitution. -/
def read : Reader (Substitution α) :=
  Reader.choice
    [Variant.ofMembers "Shifted" (boundMembers "lower") fun (lower, column) =>
        shifted lower column,
      Variant.ofMembers "Reflected" (boundMembers "upper") fun (upper, column) =>
        reflected upper column,
      Variant.ofMembers "Split" splitMembers fun (positive, negative) => split positive negative]

end Substitution

namespace ColumnMap

/-- A map is its substitutions and the number of columns. -/
def write (map : ColumnMap α) : List Char :=
  writeObject [("substitutions", writeList Substitution.write map.substitutions),
    ("num_columns", writeNatural map.numColumns)]

/-- The parts of a map. -/
def members : Members (Option (List (Substitution α)) × Option Nat)
    (List (Substitution α) × Nat) :=
  .and (.one (.required "substitutions" (Reader.list Substitution.read)))
    (.one (.required "num_columns" Reader.natural))

/-- Reads a map. -/
def read : Reader (ColumnMap α) := do
  let (substitutions, numColumns) ← Reader.record members
  return ⟨substitutions, numColumns⟩

end ColumnMap

namespace Extended

/-- A value is a number; an infinity is no JSON number, and nothing is written for it. -/
def write : Extended α → List Char
  | value x => writeNumber x
  | _ => Json.null

end Extended

namespace Solution

/-- A solution is its status, values, objective and number of pivots. -/
def write (s : Solution α) : List Char :=
  writeObject [("status", s.status.write), ("values", Json.writeOptional Coords.write s.values),
    ("objective_value", s.objective.write), ("pivots", writeNatural s.pivots)]

/-- The parts of a solution. -/
def members : Members
    (Option Status × Option (Option (Coords α)) × Option α × Option Nat)
    (Status × Option (Coords α) × α × Nat) :=
  .and (.one (.required "status" Status.read)) <|
    .and (.one (.optional "values" Coords.read)) <|
      .and (.one (.required "objective_value" Reader.number))
        (.one (.required "pivots" Reader.natural))

/-- Reads a solution. -/
def read : Reader (Solution α) := do
  let (status, values, objective, pivots) ← Reader.record members
  return ⟨status, values, .value objective, pivots⟩

end Solution

/-! ### Entities of a model -/

/-- A bound is a number; a missing one is not, and nothing is written for it. -/
def Variable.write (v : Variable α) : List Char :=
  writeObject [("name", quote v.name), ("lower", Json.writeOptional writeNumber v.lower),
    ("upper", Json.writeOptional writeNumber v.upper)]

/-- The members of a sum: its variables and its weights. -/
def Terms.membersWritten (terms : Terms α) : List (String × List Char) :=
  [("variables", writeList VariableId.write (terms.map Prod.fst)),
    ("weights", writeList writeNumber (terms.map Prod.snd))]

/-- A constraint is its sum, its relation and its right-hand side. -/
def Constraint.write (c : Constraint α) : List Char :=
  writeObject (c.terms.membersWritten ++
    [("relation", c.relation.write), ("rhs", writeNumber c.rhs)])

/-- An objective is its goal and its sum. -/
def Objective.write (o : Objective α) : List Char :=
  writeObject (("goal", o.goal.write) :: o.terms.membersWritten)

end LinProg
