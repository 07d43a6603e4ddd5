import LinProg.Fault
import LinProg.Scalar

/-!
Vectors of coordinates: arrays that are read by index and are zero beyond their end.

* `Coords`, `Coords.coord`: the vector and its entry at an index.
* `Coords.tabulate`, `Coords.zeros`, `Coords.unit`: the vectors of a given length with given
  entries, with zeros, and with a single one.
* `Coords.resized`: cut or extended with zeros to a length.
* `Coords.entry`, `store`, `slice`, `overwrite`: access with every index checked.
-/

namespace LinProg

/-- A vector of numbers. -/
abbrev Coords (α : Type) := Array α

namespace Coords

variable {α : Type} [Scalar α]

/-- The entry at index `i`, zero beyond the end. -/
def coord (v : Coords α) (i : Nat) : α := v.getD i 0

/-- The vector of length `n` whose entry at `i` is `f i`. -/
def tabulate (n : Nat) (f : Nat → α) : Coords α := Array.ofFn fun i : Fin n => f i

/-- The zero vector of length `n`. -/
def zeros (n : Nat) : Coords α := tabulate n fun _ => 0

/-- The vector of length `n` that is one at `j` and zero elsewhere. -/
def unit (n j : Nat) : Coords α := tabulate n fun i => if i = j then 1 else 0

/-- The first `n` entries of a vector, with zeros where it has fewer. -/
def resized (v : Coords α) (n : Nat) : Coords α := tabulate n v.coord

omit [Scalar α] in
/-- The entry at index `i`, which the vector has to have. -/
def entry (v : Coords α) (i : Nat) : Except Fault α :=
  match v[i]? with
  | some x => .ok x
  | none => .error .indexOutOfRange

omit [Scalar α] in
/-- Writes `x` at index `i`, which the vector has to have. -/
def store (v : Coords α) (i : Nat) (x : α) : Except Fault (Coords α) := do
  Fault.indexOutOfRange.unless (i < v.size)
  return v.setIfInBounds i x

omit [Scalar α] in
/-- The entries from index `start` up to `stop`, which both have to lie within the vector. -/
def slice (v : Coords α) (start stop : Nat) : Except Fault (Coords α) := do
  Fault.indexOutOfRange.unless (start ≤ stop && stop ≤ v.size)
  return v.extract start stop

/-- Writes the entries of `cells` from index `start` on. The vector has to have room for them. -/
def overwrite (v : Coords α) (start : Nat) (cells : Coords α) : Except Fault (Coords α) := do
  Fault.indexOutOfRange.unless (start + cells.size ≤ v.size)
  return tabulate v.size fun k =>
    if start ≤ k ∧ k < start + cells.size then cells.coord (k - start) else v.coord k

omit [Scalar α] in
/-- A tabulated vector has the given length. -/
@[simp] theorem size_tabulate (n : Nat) (f : Nat → α) : (tabulate n f).size = n := by
  simp [tabulate]

/-- A tabulated vector has the given entries up to its length. -/
@[simp] theorem coord_tabulate (n : Nat) (f : Nat → α) (i : Nat) :
    (tabulate n f).coord i = if i < n then f i else 0 := by
  by_cases h : i < n <;> simp [coord, tabulate, Array.getD, h]

/-- The entry is that of the array, zero where it has none. -/
theorem coord_eq_getElem? (v : Coords α) (i : Nat) : v.coord i = v[i]?.getD 0 :=
  Array.getD_eq_getD_getElem?

/-- Vectors of one length with the same entries are equal. -/
theorem ext_coord {v w : Coords α} (hsize : v.size = w.size)
    (h : ∀ i < v.size, v.coord i = w.coord i) : v = w := by
  refine Array.ext hsize fun i hv hw => ?_
  simpa [coord, Array.getD, hv, hw] using h i hv

/-- Beyond its end a vector is zero. -/
theorem coord_of_size_le {v : Coords α} {i : Nat} (h : v.size ≤ i) : v.coord i = 0 := by
  simp [coord, Array.getD, Nat.not_lt.mpr h]

/-- A vector with one more entry. -/
theorem coord_push (v : Coords α) (x : α) (i : Nat) :
    coord (v.push x) i = if i = v.size then x else v.coord i := by
  rw [coord_eq_getElem?, Array.getElem?_push, coord_eq_getElem?]
  split <;> rfl

/-- The first entries of a vector. -/
theorem coord_extract (v : Coords α) (n i : Nat) :
    coord (v.extract 0 n) i = if i < n then v.coord i else 0 := by
  rw [coord_eq_getElem?, coord_eq_getElem?, Array.getElem?_extract]
  grind

/-- A vector with one entry changed. -/
theorem coord_modify (v : Coords α) (i : Nat) (f : α → α) (j : Nat) :
    coord (v.modify i f) j = if i = j ∧ j < v.size then f (v.coord j) else v.coord j := by
  rw [coord_eq_getElem?, coord_eq_getElem?, Array.getElem?_modify]
  grind

@[simp] theorem size_zeros (n : Nat) : (zeros n : Coords α).size = n := size_tabulate n _

/-- Every entry of the zero vector is zero, and so is every entry beyond its end. -/
@[simp] theorem coord_zeros (n i : Nat) : (zeros n : Coords α).coord i = 0 := by
  rw [zeros, coord_tabulate, ite_self]

@[simp] theorem size_unit (n j : Nat) : (unit n j : Coords α).size = n := size_tabulate n _

end Coords

end LinProg
