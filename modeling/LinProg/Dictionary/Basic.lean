import LinProg.StandardForm

/-!
Dictionaries of canonical programs:

    z   = constant + Σ c[j] · x[j]          over the nonbasic variables j
    x_i = b[i]     - Σ a[i][j] · x[j]       over the nonbasic variables j, for each basic i

The columns of the program come first among the variables, then a slack for each row. The matrix
has a row and a column for every variable; rows of nonbasic variables and columns of basic ones
are zero.

* `Role`, `Dictionary`: the two sides of the partition, and the dictionary.
* `Dictionary.ofStandardForm`: the dictionary in which the slacks are basic.
* `Dictionary.basics`, `Dictionary.nonbasics`: the variables of each role, in ascending order.
* `Dictionary.isPartition`: the dimensions agree and there is one basic variable for each row.
-/

namespace LinProg

/-- Which side of the partition a variable is on. -/
inductive Role where
  | basic
  | nonbasic
  deriving DecidableEq, Repr

/-- A dictionary, with the tolerance of its zero tests and the number of pivots made so far. -/
structure Dictionary (α : Type) where
  a : DenseMatrix α
  b : Coords α
  c : Coords α
  constant : α
  roles : Array Role
  numRows : Nat
  numColumns : Nat
  tolerance : α
  pivots : Nat
  deriving DecidableEq

namespace Dictionary

variable {α : Type} [Scalar α]

/-- The dictionary of a program in which the slacks are basic. -/
def ofStandardForm (form : StandardForm α) (tolerance : α) : Dictionary α :=
  let n := form.numColumns
  let size := n + form.numRows
  { a := DenseMatrix.ofFn size size fun i j => if n ≤ i ∧ j < n then form.a.get (i - n) j else 0
    b := Coords.tabulate size fun i => if n ≤ i then form.b.coord (i - n) else 0
    c := Coords.tabulate size form.c.coord
    constant := form.constant
    roles := Array.ofFn fun i : Fin size => if i < n then .nonbasic else .basic
    numRows := form.numRows
    numColumns := n
    tolerance := tolerance
    pivots := 0 }

omit [Scalar α] in
/-- How many variables there are, columns and slacks together. -/
def numVariables (d : Dictionary α) : Nat := d.roles.size

omit [Scalar α] in
/-- Whether a variable is basic. -/
def isBasic (d : Dictionary α) (j : Nat) : Bool := d.roles[j]? == some .basic

omit [Scalar α] in
/-- Whether a variable is nonbasic. -/
def isNonbasic (d : Dictionary α) (j : Nat) : Bool := d.roles[j]? == some .nonbasic

omit [Scalar α] in
/-- The role of a variable, which the dictionary has to have. -/
def role (d : Dictionary α) (j : Nat) : Except Fault Role :=
  match d.roles[j]? with
  | some role => .ok role
  | none => .error .indexOutOfRange

omit [Scalar α] in
/-- The basic variables in ascending order. -/
def basics (d : Dictionary α) : List Nat := (List.range d.numVariables).filter d.isBasic

omit [Scalar α] in
/-- The nonbasic variables in ascending order. -/
def nonbasics (d : Dictionary α) : List Nat := (List.range d.numVariables).filter d.isNonbasic

omit [Scalar α] in
/-- Whether all parts have the size of the dictionary and one variable is basic for each row. -/
def isPartition (d : Dictionary α) : Bool :=
  d.a.rows == d.numVariables && d.a.cols == d.numVariables && d.b.size == d.numVariables &&
    d.c.size == d.numVariables && d.basics.length == d.numRows

end Dictionary

end LinProg
