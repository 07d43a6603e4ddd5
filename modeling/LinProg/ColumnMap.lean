import LinProg.Coords
import LinProg.Fault
import LinProg.Model.Variable

/-!
How the variables of a model are expressed through nonnegative columns.

* `Substitution`: the expression of one variable. `Substitution.allot` chooses it by the bounds
  and counts the columns that it takes.
* `Substitution.addTo`, `Substitution.offset`: what a weighted variable adds to a row of
  columns, and the constant that it leaves behind.
* `Substitution.valueWith`, `Substitution.value`: the value of the variable from those of the
  columns, each of which is read where it is needed.
* `ColumnMap`: the substitutions of all variables, in order. `ColumnMap.ofVariables` gives each
  variable the columns after those of the variable before, with one counter for all.
-/

namespace LinProg

/-- The expression of a variable through nonnegative columns. -/
inductive Substitution (α : Type) where
  /-- The lower bound plus a column. -/
  | shifted (lower : α) (column : Nat)
  /-- The upper bound minus a column. -/
  | reflected (upper : α) (column : Nat)
  /-- The difference of two columns. -/
  | split (positive negative : Nat)
  deriving DecidableEq, Repr

namespace Substitution

variable {α : Type} [Scalar α]

/-- The expression of a variable whose first column is `next`: from the lower bound where that is
finite, else from a finite upper bound, else as a difference. The second part is the first column
that is left. -/
def allot (v : Variable α) (next : Nat) : Substitution α × Nat :=
  match v.finiteLower, v.finiteUpper with
  | some lower, _ => (shifted lower next, next + 1)
  | none, some upper => (reflected upper next, next + 1)
  | none, none => (split next (next + 1), next + 2)

/-- The expression of a variable whose first column is `next`. -/
def ofVariable (v : Variable α) (next : Nat) : Substitution α := (allot v next).1

omit [Scalar α] in
/-- The columns of the expression, in order. -/
def columns : Substitution α → List Nat
  | shifted _ column | reflected _ column => [column]
  | split positive negative => [positive, negative]

/-- Adds a multiple of the variable, less its constant part, to a row of columns. -/
def addTo (s : Substitution α) (weight : α) (row : Coords α) : Coords α :=
  match s with
  | shifted _ column => row.modify column (· + weight)
  | reflected _ column => row.modify column (· - weight)
  | split positive negative => (row.modify positive (· + weight)).modify negative (· - weight)

/-- The constant part of a multiple of the variable. -/
def offset (s : Substitution α) (weight : α) : α :=
  match s with
  | shifted lower _ => weight * lower
  | reflected upper _ => weight * upper
  | split .. => 0

/-- The value of the variable, where `read` finds the value of a column. -/
def valueWith {m : Type → Type} [Monad m] (s : Substitution α) (read : Nat → m α) : m α := do
  match s with
  | shifted lower column => return lower + (← read column)
  | reflected upper column => return upper - (← read column)
  | split positive negative => return (← read positive) - (← read negative)

/-- The value of the variable where the columns have the values in a vector. -/
def value (s : Substitution α) (x : Coords α) : Except Fault α := s.valueWith x.entry

/-- The expression as text. -/
def text : Substitution Float → String
  | shifted lower column => s!"{Decimal.plain lower} + x{column}"
  | reflected upper column => s!"{Decimal.plain upper} - x{column}"
  | split positive negative => s!"x{positive} - x{negative}"

end Substitution

/-- The substitutions of the variables of a model, and how many columns they take. -/
structure ColumnMap (α : Type) where
  substitutions : List (Substitution α)
  numColumns : Nat
  deriving DecidableEq, Repr

namespace ColumnMap

variable {α : Type} [Scalar α]

/-- The substitutions of a list of variables whose first column is `next`, and the first column that
is left. -/
def allot : List (Variable α) → Nat → List (Substitution α) × Nat
  | [], next => ([], next)
  | v :: vs, next =>
    let (s, next) := Substitution.allot v next
    let (rest, next) := allot vs next
    (s :: rest, next)

/-- The map that numbers the columns of the variables from zero. -/
def ofVariables (vars : List (Variable α)) : ColumnMap α :=
  let (substitutions, next) := allot vars 0
  ⟨substitutions, next⟩

omit [Scalar α] in
/-- The substitution of a variable. -/
def substitution? (map : ColumnMap α) (id : VariableId) : Option (Substitution α) :=
  map.substitutions[id.index]?

/-- The values of all variables, where `read` finds the value of a column. -/
def valuesWith {m : Type → Type} [Monad m] (map : ColumnMap α) (read : Nat → m α) :
    m (Coords α) := do
  return (← map.substitutions.mapM (·.valueWith read)).toArray

/-- The values of all variables from those of the columns. -/
def values (map : ColumnMap α) (x : Coords α) : Except Fault (Coords α) := map.valuesWith x.entry

/-- The value of one variable from those of the columns, if the model has it. -/
def value (map : ColumnMap α) (id : VariableId) (x : Coords α) : Except Fault (Option α) :=
  (map.substitution? id).mapM (·.value x)

end ColumnMap

end LinProg
