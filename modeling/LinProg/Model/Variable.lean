import LinProg.Model.Error

/-!
Decision variables.

* `VariableId`: the handle of a variable, its place in the order of registration.
* `Variable`: a name and two bounds, each of which may be missing.
* `Variable.ofBounds`, `nonnegative`, `free`: the ways to make one.
* `Variable.Valid`: the bounds are finite and in ascending order.
* `Variable.finiteLower`, `finiteUpper`, `isFree`: the finite bounds, and whether both bounds are
  infinities.
* `Variable.contains`: whether a value lies within the bounds.
-/

namespace LinProg

/-- The handle of a variable: how many variables were registered before it. -/
structure VariableId where
  index : Nat
  deriving DecidableEq, Repr

/-- A real variable. A missing bound leaves it unbounded on that side. -/
structure Variable (α : Type) where
  name : String
  lower : Option α
  upper : Option α
  deriving DecidableEq, Repr

namespace Variable

variable {α : Type} [Scalar α]

/-- Whether two bounds are finite where given, and in ascending order where both are. -/
def boundsValid (lower upper : Option α) : Bool :=
  lower.all Scalar.isFinite && upper.all Scalar.isFinite &&
    match lower, upper with
    | some l, some u => decide (l ≤ u)
    | _, _ => true

/-- The bounds of the variable are ones that `ofBounds` accepts. -/
def Valid (v : Variable α) : Prop := boundsValid v.lower v.upper = true

/-- The variable with the given bounds. -/
def ofBounds (name : String) (lower upper : Option α) : Except (ModelError α) (Variable α) :=
  if boundsValid lower upper then .ok ⟨name, lower, upper⟩
  else .error (.invalidBounds lower upper)

/-- The variable that is at least zero. -/
def nonnegative (name : String) : Variable α := ⟨name, some 0, none⟩

omit [Scalar α] in
/-- The variable that takes any value. -/
def free (name : String) : Variable α := ⟨name, none, none⟩

/-- The lower bound, where it is finite. -/
def finiteLower (v : Variable α) : Option α := v.lower.filter Scalar.isFinite

/-- The upper bound, where it is finite. -/
def finiteUpper (v : Variable α) : Option α := v.upper.filter Scalar.isFinite

/-- Whether the lower bound is `-∞` and the upper one `+∞`, as missing bounds are. -/
def isFree (v : Variable α) : Bool := v.lower.all Scalar.isBottom && v.upper.all Scalar.isTop

/-- Whether a value lies within the bounds, allowing some slack. A missing bound still asks for a
value that can be compared and for a slack above `-∞`. -/
def contains (v : Variable α) (value tolerance : α) : Bool :=
  let comparable := decide (value ≤ value) && Scalar.belowTop (-tolerance)
  (match v.lower with
    | some lower => decide (lower - tolerance ≤ value)
    | none => comparable) &&
  match v.upper with
    | some upper => decide (value ≤ upper + tolerance)
    | none => comparable

end Variable

end LinProg
