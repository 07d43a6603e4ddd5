import LinProg.DenseMatrix
import LinProg.Decimal.Layout

/-!
Canonical linear programs: maximize `c · x + constant` subject to `A x ≤ b` and `x ≥ 0`.

* `StandardForm`: the matrix, the right-hand sides, the costs and the constant.
* `StandardForm.WellShaped`: the dimensions agree; `StandardForm.ofParts` makes only such
  programs from well-shaped matrices.
* `StandardForm.text`: the program as text.
-/

namespace LinProg

/-- A canonical linear program. -/
structure StandardForm (α : Type) where
  a : DenseMatrix α
  b : Coords α
  c : Coords α
  constant : α
  deriving DecidableEq

namespace StandardForm

variable {α : Type} [Scalar α]

omit [Scalar α] in
/-- The number of rows. -/
def numRows (form : StandardForm α) : Nat := form.b.size

omit [Scalar α] in
/-- The number of columns. -/
def numColumns (form : StandardForm α) : Nat := form.c.size

omit [Scalar α] in
/-- The matrix is well shaped, with a row for each right-hand side and a column for each cost. -/
def WellShaped (form : StandardForm α) : Prop :=
  form.a.WellShaped ∧ form.a.rows = form.numRows ∧ form.a.cols = form.numColumns

/-- The program with the given parts, whose dimensions have to agree. -/
def ofParts (a : DenseMatrix α) (b c : Coords α) (constant : α) :
    Except Fault (StandardForm α) := do
  Fault.shapeMismatch.unless (a.rows == b.size && a.cols == c.size)
  return ⟨a, b, c, constant⟩

/-! ### Text -/

/-- Costs keep the point of a whole number, and very large and very small ones have an exponent. -/
def costLayout : Decimal.Layout where
  positional := some (-4, 15)
  pointZero := true
  exponentSign := false
  tie := .up

/-- A row of the matrix with its right-hand side. -/
def rowText (form : StandardForm Float) (i : Nat) : String :=
  let cells := (form.a.rowCells i).toList.map fun x => Decimal.padLeft 8 (Decimal.fixed 3 x)
  let row := " ".intercalate cells
  s!"  [{row}] <= {Decimal.plain (form.b.coord i)}\n"

/-- The program as text: the objective, the costs and the rows. -/
def text (form : StandardForm Float) : String :=
  let costs := ", ".intercalate (form.c.toList.map costLayout.text)
  s!"maximize {Decimal.plain form.constant} + c.x\n" ++
    s!"c = [{costs}]\n" ++
    "subject to A x <= b, x >= 0\n" ++
    String.join ((List.range form.numRows).map form.rowText)

end StandardForm

end LinProg
