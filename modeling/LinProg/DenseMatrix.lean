import LinProg.Coords
import LinProg.Decimal.Layout
import LinProg.Fault

/-!
Dense matrices, stored row after row in one array.

* `DenseMatrix`, `DenseMatrix.WellShaped`: the dimensions with the entries, and the statement
  that there are as many entries as the dimensions ask for.
* `DenseMatrix.get`: the entry at a row and a column, zero where the array has none. It is the
  view through which the other operations are described.
* `DenseMatrix.entry`, `row`: reading with the index checked.
* `DenseMatrix.ofFn`, `zeros`, `ofRows`, `appendRow`: building.
* `DenseMatrix.reshape`, `overwriteRow`, `fillRow`, `set`: changing. `reshaped` is what reshaping is
  to come to, cell by cell.
* `DenseMatrix.capacity`, `zerosWithin`, `pushRow`, `resize`, `writeRow`: the same for numbers of
  any size, with a fault where no array holds the entries or the rows cannot be counted.
* `DenseMatrix.text`: the matrix as text.
-/

namespace LinProg

/-- A matrix with its entries in row-major order. The dimensions are data of their own, so that a
matrix read from a text may disagree with its entries. -/
structure DenseMatrix (α : Type) where
  rows : Nat
  cols : Nat
  data : Coords α
  deriving DecidableEq

namespace DenseMatrix

variable {α : Type} [Scalar α]

/-- There is one entry for each row and column. -/
def WellShaped (m : DenseMatrix α) : Prop := m.data.size = m.rows * m.cols

instance (m : DenseMatrix α) : Decidable m.WellShaped := inferInstanceAs (Decidable (_ = _))

/-! ### Reading -/

/-- The entry in row `i` and column `j`. -/
def get (m : DenseMatrix α) (i j : Nat) : α := m.data.coord (i * m.cols + j)

/-- The cells of row `i` in column order. -/
def rowCells (m : DenseMatrix α) (i : Nat) : Coords α :=
  m.data.extract (i * m.cols) ((i + 1) * m.cols)

/-- The rows in order, each with its cells. -/
def toRows (m : DenseMatrix α) : List (Coords α) := (List.range m.rows).map m.rowCells

/-- Whether a row and a column are both within the dimensions. -/
def inRange (m : DenseMatrix α) (i j : Nat) : Bool := i < m.rows && j < m.cols

/-- Whether the cells of row `i` lie within the entries. A row without cells always does, as long as
the rows up to its end can be counted in 64 bits. -/
def hasRow (m : DenseMatrix α) (i : Nat) : Bool :=
  i + 1 < UInt64.size && (i + 1) * m.cols ≤ m.data.size

omit [Scalar α] in
/-- The entry in row `i` and column `j`, with both checked. -/
def entry (m : DenseMatrix α) (i j : Nat) : Except Fault α := do
  Fault.indexOutOfRange.unless (m.inRange i j)
  m.data.entry (i * m.cols + j)

omit [Scalar α] in
/-- The cells of row `i`, which have to lie within the entries. -/
def rowSlice (m : DenseMatrix α) (i : Nat) : Except Fault (Coords α) :=
  m.data.slice (i * m.cols) ((i + 1) * m.cols)

/-- The cells of row `i`, with the row checked. -/
def row (m : DenseMatrix α) (i : Nat) : Except Fault (Coords α) := do
  Fault.indexOutOfRange.unless (m.hasRow i)
  return m.rowCells i

/-- Whether two matrices have the same dimensions and entries that compare as equal. -/
def agrees (m n : DenseMatrix α) : Bool :=
  m.rows == n.rows && m.cols == n.cols && m.data == n.data

/-! ### Building -/

/-- The matrix whose entry in row `i` and column `j` is `f i j`. -/
def ofFn (rows cols : Nat) (f : Nat → Nat → α) : DenseMatrix α where
  rows := rows
  cols := cols
  data := Coords.tabulate (rows * cols) fun k => f (k / cols) (k % cols)

/-- The zero matrix. -/
def zeros (rows cols : Nat) : DenseMatrix α := ofFn rows cols fun _ _ => 0

/-- A number of entries that no array has: it holds less than `2 ^ 63` bytes, and an entry has
eight. -/
def capacity : Nat := 1152921504606846976

/-- The zero matrix, where an array can hold it. -/
def zerosWithin (rows cols : Nat) : Except Fault (DenseMatrix α) := do
  Fault.tooLarge.unless (rows * cols < capacity)
  return zeros rows cols

omit [Scalar α] in
/-- A matrix given by a function has an entry for each row and column. -/
theorem wellShaped_ofFn (rows cols : Nat) (f : Nat → Nat → α) :
    (ofFn rows cols f).WellShaped := by
  simp [WellShaped, ofFn]

/-- A matrix given by a function has the values of the function as its entries. -/
theorem get_ofFn {rows cols i j : Nat} (f : Nat → Nat → α) (hi : i < rows) (hj : j < cols) :
    (ofFn rows cols f).get i j = f i j := by
  have hk : i * cols + j < rows * cols :=
    calc i * cols + j < i * cols + cols := Nat.add_lt_add_left hj _
      _ = (i + 1) * cols := (Nat.succ_mul i cols).symm
      _ ≤ rows * cols := Nat.mul_le_mul_right cols hi
  have hq : (i * cols + j) / cols = i := by
    rw [Nat.mul_comm, Nat.mul_add_div (Nat.zero_lt_of_lt hj), Nat.div_eq_of_lt hj, Nat.add_zero]
  have hr : (i * cols + j) % cols = j := by
    rw [Nat.mul_comm, Nat.mul_add_mod, Nat.mod_eq_of_lt hj]
  simp [get, ofFn, hk, hq, hr]

/-- Every entry of the zero matrix is zero. -/
@[simp] theorem get_zeros (rows cols i j : Nat) :
    (zeros rows cols : DenseMatrix α).get i j = 0 := by
  simp [get, zeros, ofFn]

omit [Scalar α] in
/-- Appends a row, which has one cell for each column. -/
def appendRow (m : DenseMatrix α) (cells : Coords α) : Except Fault (DenseMatrix α) := do
  Fault.shapeMismatch.unless (cells.size == m.cols)
  return { m with rows := m.rows + 1, data := m.data ++ cells }

omit [Scalar α] in
/-- Appends a row, where an array holds the entries and the rows can be counted in 64 bits. -/
def pushRow (m : DenseMatrix α) (cells : Coords α) : Except Fault (DenseMatrix α) := do
  let next ← m.appendRow cells
  Fault.tooLarge.unless (next.data.size < capacity && next.rows < UInt64.size)
  return next

/-- The matrix with the given rows, all of one length; without rows it has no columns. Rows that are
given one by one are never too many to be counted. -/
def ofRows (rows : List (Coords α)) : Except Fault (DenseMatrix α) :=
  rows.foldlM appendRow (zeros 0 ((rows.head?.map Array.size).getD 0))

/-! ### Changing -/

/-- The matrix with other dimensions: the cells that are in both shapes stay and the others are
zero. -/
def reshaped (m : DenseMatrix α) (rows cols : Nat) : DenseMatrix α :=
  ofFn rows cols fun i j => if i < m.rows ∧ j < m.cols then m.get i j else 0

/-- Copies the first `keep` cells of row `i` to where that row begins in `data`, in which the rows
have `cols` cells. -/
def copyRow (m : DenseMatrix α) (cols keep : Nat) (data : Coords α) (i : Nat) :
    Except Fault (Coords α) := do
  data.overwrite (i * cols) (← m.data.slice (i * m.cols) (i * m.cols + keep))

/-- Reshapes to `rows` by `cols`, keeping the cells that are in both shapes and filling the others
with zeros. Where the number of columns stays, the entries are cut or extended in place; elsewhere
the cells of each row that stay are copied. -/
def reshape (m : DenseMatrix α) (rows cols : Nat) : Except Fault (DenseMatrix α) := do
  if cols = m.cols then
    return { m with rows := rows, data := m.data.resized (rows * cols) }
  else
    let data ← (List.range (min rows m.rows)).foldlM (m.copyRow cols (min cols m.cols))
      (Coords.zeros (rows * cols))
    return { rows := rows, cols := cols, data := data }

/-- Reshapes to `rows` by `cols`, where an array can hold the entries. -/
def resize (m : DenseMatrix α) (rows cols : Nat) : Except Fault (DenseMatrix α) := do
  Fault.tooLarge.unless (rows * cols < capacity)
  m.reshape rows cols

omit [Scalar α] in
/-- Writes `x` into the cell in row `i` and column `j`. -/
def set (m : DenseMatrix α) (i j : Nat) (x : α) : Except Fault (DenseMatrix α) := do
  Fault.indexOutOfRange.unless (m.inRange i j)
  return { m with data := ← m.data.store (i * m.cols + j) x }

/-- Writes `cells` into the first cells of row `i`, which has to lie within the entries. -/
def overwriteRow (m : DenseMatrix α) (i : Nat) (cells : Coords α) :
    Except Fault (DenseMatrix α) := do
  Fault.indexOutOfRange.unless ((i + 1) * m.cols ≤ m.data.size && cells.size ≤ m.cols)
  return { m with data := ← m.data.overwrite (i * m.cols) cells }

/-- Writes `cell j` into the cell in column `j` of row `i`, for each column. -/
def writeRow (m : DenseMatrix α) (i : Nat) (cell : Nat → α) : Except Fault (DenseMatrix α) := do
  Fault.indexOutOfRange.unless (m.hasRow i)
  m.overwriteRow i (Coords.tabulate m.cols cell)

/-- Writes `x` into every cell of row `i`. -/
def fillRow (m : DenseMatrix α) (i : Nat) (x : α) : Except Fault (DenseMatrix α) :=
  m.writeRow i fun _ => x

/-! ### Text -/

/-- A matrix as text, a line for each row. -/
def text (m : DenseMatrix Float) : String :=
  let line (cells : Coords Float) : String :=
    let row := " ".intercalate (cells.toList.map fun x => Decimal.padLeft 10 (Decimal.fixed 4 x))
    s!"[{row}]\n"
  String.join (m.toRows.map line)

end DenseMatrix

end LinProg
