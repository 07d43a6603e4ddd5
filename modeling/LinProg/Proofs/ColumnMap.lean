import LinProg.Proofs.Coords
import LinProg.Proofs.Rational
import LinProg.Proofs.Traced
import LinProg.ColumnMap

/-!
How the columns of a model carry the values of its variables.

* `Variable.isUnbounded`, `isBoxed`: which bounds are finite. For valid bounds that is the same as
  which bounds are no infinities (`Valid.isFree_eq`).
* `Substitution.snd_allot`, `ColumnMap.snd_allot`: what is counted while columns are dealt out is
  what the expressions list. So the columns are numbered in order (`flatMap_columns_allot`), and
  each belongs to one variable (`existsUnique_mem_columns`).
* `lt_numColumns`, `numColumns_ofVariables`: the columns of a map lie within it, one for each
  variable and one more for each one without a finite bound.
* `Substitution.valueAt`, `values_eq_ok_valueAt`: the values of the variables. `run_valuesWith`
  says which columns are read for them. All this holds in any arithmetic, the rest over the exact
  rationals.
* `Coords.dot`: a row of columns at a point.
* `Substitution.eval`, `dot_addTo`: the value of a variable from the columns, and what a weighted
  variable does to a row.
* `ColumnMap.assignment`, `values_eq_ok`, `value_eq_ok`: the values of all variables.
* `exists_columns`: every assignment within the bounds is that of a nonnegative point.
-/

namespace LinProg

open Finset

section Columns

variable {α : Type} [Scalar α]

/-! ### Finite bounds -/

namespace Variable

variable {v : Variable α}

/-- Whether neither bound is finite. -/
def isUnbounded (v : Variable α) : Bool := v.finiteLower.isNone && v.finiteUpper.isNone

/-- Whether both bounds are finite. -/
def isBoxed (v : Variable α) : Bool := v.finiteLower.isSome && v.finiteUpper.isSome

/-- The bounds of a valid variable are finite where they are given. -/
lemma Valid.all_isFinite (h : v.Valid) :
    v.lower.all Scalar.isFinite = true ∧ v.upper.all Scalar.isFinite = true := by
  simp only [Valid, boundsValid, Bool.and_eq_true] at h
  exact h.1

lemma finiteLower_eq (h : v.lower.all Scalar.isFinite = true) : v.finiteLower = v.lower := by
  rw [finiteLower]
  cases hlower : v.lower with
  | none => rfl
  | some lower =>
      rw [hlower, Option.all_some] at h
      rw [Option.filter_some, if_pos h]

lemma finiteUpper_eq (h : v.upper.all Scalar.isFinite = true) : v.finiteUpper = v.upper := by
  rw [finiteUpper]
  cases hupper : v.upper with
  | none => rfl
  | some upper =>
      rw [hupper, Option.all_some] at h
      rw [Option.filter_some, if_pos h]

/-- A bound that is finite is no infinity. Where all bounds are finite that are given, a variable
without a finite bound is one between two infinities. -/
lemma isFree_eq (hlower : v.lower.all Scalar.isFinite = true)
    (hupper : v.upper.all Scalar.isFinite = true) : v.isFree = v.isUnbounded := by
  rw [isUnbounded, finiteLower_eq hlower, finiteUpper_eq hupper, isFree]
  congr 1
  · cases hl : v.lower with
    | none => rfl
    | some lower =>
        simp only [hl, Option.all_some, Scalar.isFinite, Bool.and_eq_true] at hlower
        simp [Scalar.isBottom, Scalar.isTop, hlower.2]
  · cases hu : v.upper with
    | none => rfl
    | some upper =>
        simp only [hu, Option.all_some, Scalar.isFinite, Bool.and_eq_true] at hupper
        simp [Scalar.isTop, hupper.1]

/-- To ask whether both bounds are infinities is to ask whether neither is finite. -/
lemma Valid.isFree_eq (h : v.Valid) : v.isFree = v.isUnbounded :=
  Variable.isFree_eq h.all_isFinite.1 h.all_isFinite.2

/-- Every rational is finite. -/
@[simp] lemma finiteLower_rat (v : Variable ℚ) : v.finiteLower = v.lower :=
  finiteLower_eq (by cases v.lower <;> rfl)

@[simp] lemma finiteUpper_rat (v : Variable ℚ) : v.finiteUpper = v.upper :=
  finiteUpper_eq (by cases v.upper <;> rfl)

lemma isFree_rat (v : Variable ℚ) : v.isFree = v.isUnbounded :=
  isFree_eq (by cases v.lower <;> rfl) (by cases v.upper <;> rfl)

end Variable

/-! ### Columns, in any arithmetic -/

namespace Substitution

variable {v : Variable α} {next c : ℕ}

omit [Scalar α] in
@[simp] lemma mem_columns_shifted {lower : α} {column c : ℕ} :
    c ∈ (shifted lower column).columns ↔ c = column := List.mem_singleton

omit [Scalar α] in
@[simp] lemma mem_columns_reflected {upper : α} {column c : ℕ} :
    c ∈ (reflected upper column).columns ↔ c = column := List.mem_singleton

omit [Scalar α] in
@[simp] lemma mem_columns_split {positive negative c : ℕ} :
    c ∈ (split positive negative : Substitution α).columns ↔ c = positive ∨ c = negative :=
  List.mem_pair

/-- A finite lower bound comes first, then a finite upper one, and then a difference. -/
lemma ofVariable_cases (v : Variable α) (next : ℕ) :
    (∃ lower, v.finiteLower = some lower ∧ ofVariable v next = shifted lower next) ∨
      (∃ upper, v.finiteLower = none ∧ v.finiteUpper = some upper ∧
        ofVariable v next = reflected upper next) ∨
      (v.finiteLower = none ∧ v.finiteUpper = none ∧
        ofVariable v next = split next (next + 1)) := by
  rw [ofVariable, allot]
  cases v.finiteLower <;> cases v.finiteUpper <;> simp

/-- The columns of a new expression follow one another. -/
lemma columns_ofVariable (v : Variable α) (next : ℕ) :
    (ofVariable v next).columns = List.range' next (ofVariable v next).columns.length := by
  rw [ofVariable, allot]
  split <;> rfl

/-- The counter moves past the columns of the expression. -/
lemma snd_allot (v : Variable α) (next : ℕ) :
    (allot v next).2 = next + (ofVariable v next).columns.length := by
  rw [ofVariable, allot]
  split <;> rfl

lemma mem_columns_ofVariable :
    c ∈ (ofVariable v next).columns ↔ next ≤ c ∧ c < (allot v next).2 := by
  rw [columns_ofVariable, List.mem_range'_1, snd_allot]

/-- Whether the variable is the difference of two columns. -/
def isSplit : Substitution α → Bool
  | split .. => true
  | _ => false

/-- A variable without a finite bound, and no other one, is the difference of two columns. -/
lemma isSplit_ofVariable (v : Variable α) (next : ℕ) :
    (ofVariable v next).isSplit = v.isUnbounded := by
  rw [ofVariable, allot, Variable.isUnbounded]
  cases v.finiteLower <;> cases v.finiteUpper <;> rfl

/-- A variable without a finite bound takes two columns, and any other one takes one. -/
lemma length_columns_ofVariable (v : Variable α) (next : ℕ) :
    (ofVariable v next).columns.length = 1 + if v.isUnbounded then 1 else 0 := by
  rw [ofVariable, allot, Variable.isUnbounded]
  cases v.finiteLower <;> cases v.finiteUpper <;> rfl

@[simp] lemma size_addTo (s : Substitution α) (weight : α) (row : Coords α) :
    (s.addTo weight row).size = row.size := by
  cases s <;> simp [addTo]

/-- The value of the variable where the columns have the given values. -/
def valueAt (s : Substitution α) (x : Coords α) : α :=
  match s with
  | shifted lower column => lower + x.coord column
  | reflected upper column => upper - x.coord column
  | split positive negative => x.coord positive - x.coord negative

/-- The value is read where the vector reaches the columns. -/
lemma value_eq_ok_valueAt {s : Substitution α} {x : Coords α} (h : ∀ c ∈ s.columns, c < x.size) :
    s.value x = .ok (s.valueAt x) := by
  cases s with
  | shifted lower column =>
      rw [value, valueWith, Coords.entry_eq_ok (h column (by simp))]
      rfl
  | reflected upper column =>
      rw [value, valueWith, Coords.entry_eq_ok (h column (by simp))]
      rfl
  | split positive negative =>
      rw [value, valueWith, Coords.entry_eq_ok (h positive (by simp)),
        Coords.entry_eq_ok (h negative (by simp))]
      rfl

end Substitution

namespace ColumnMap

variable {map : ColumnMap α} {vars : List (Variable α)} {v : Variable α} {s : Substitution α}
  {i next c : ℕ}

/-- The first variable takes the first columns, and the others take those behind. -/
lemma allot_cons (v : Variable α) (vars : List (Variable α)) (next : ℕ) :
    allot (v :: vars) next =
      (Substitution.ofVariable v next :: (allot vars (Substitution.allot v next).2).1,
        (allot vars (Substitution.allot v next).2).2) := rfl

@[simp] lemma length_fst_allot (vars : List (Variable α)) (next : ℕ) :
    (allot vars next).1.length = vars.length := by
  induction vars generalizing next with
  | nil => rfl
  | cons v vars ih => simp [allot_cons, ih]

/-- Each variable has an expression of its own kind. -/
lemma exists_substitution (h : vars[i]? = some v) (next : ℕ) :
    ∃ k, (allot vars next).1[i]? = some (Substitution.ofVariable v k) := by
  induction vars generalizing i next with
  | nil => simp at h
  | cons w vars ih =>
      cases i with
      | zero =>
          obtain rfl : w = v := by simpa using h
          exact ⟨next, rfl⟩
      | succ i => exact ih (by simpa using h) _

/-- The counter moves past the columns of all expressions, and past no others. -/
theorem snd_allot (vars : List (Variable α)) (next : ℕ) :
    (allot vars next).2 = next + ((allot vars next).1.flatMap Substitution.columns).length := by
  induction vars generalizing next with
  | nil => rfl
  | cons v vars ih =>
      rw [allot_cons, List.flatMap_cons, List.length_append, ih, Substitution.snd_allot]
      exact Nat.add_assoc ..

/-- The columns of all variables are numbered from `next` on, without gaps and repetitions, up to
where the counter ends. -/
theorem flatMap_columns_allot (vars : List (Variable α)) (next : ℕ) :
    (allot vars next).1.flatMap Substitution.columns =
      List.range' next ((allot vars next).2 - next) := by
  rw [snd_allot, Nat.add_sub_cancel_left]
  induction vars generalizing next with
  | nil => rfl
  | cons v vars ih =>
      rw [allot_cons, List.flatMap_cons, List.length_append, ih, Substitution.columns_ofVariable,
        Substitution.snd_allot]
      simp only [List.length_range', List.range'_append_1]

/-- The columns of the variables are those from `next` on. -/
lemma mem_columns_allot (hs : s ∈ (allot vars next).1) (hc : c ∈ s.columns) :
    next ≤ c ∧ c < (allot vars next).2 := by
  have hmem : c ∈ (allot vars next).1.flatMap Substitution.columns :=
    List.mem_flatMap.mpr ⟨s, hs, hc⟩
  rw [flatMap_columns_allot, List.mem_range'_1] at hmem
  omega

/-- The columns of a map lie within it. -/
lemma lt_numColumns (hs : s ∈ (ofVariables vars).substitutions) (hc : c ∈ s.columns) :
    c < (ofVariables vars).numColumns :=
  (mem_columns_allot hs hc).2

/-- The variables without a finite bound, and no others, are differences of columns. -/
lemma map_isSplit_allot (vars : List (Variable α)) (next : ℕ) :
    (allot vars next).1.map Substitution.isSplit = vars.map Variable.isUnbounded := by
  induction vars generalizing next with
  | nil => rfl
  | cons v vars ih =>
      rw [allot_cons, List.map_cons, List.map_cons, ih, Substitution.isSplit_ofVariable]

/-- There is a column for each variable and one more for each one without a finite bound. -/
lemma snd_allot_eq_countP (vars : List (Variable α)) (next : ℕ) :
    (allot vars next).2 = next + vars.length + vars.countP Variable.isUnbounded := by
  induction vars generalizing next with
  | nil => rfl
  | cons v vars ih =>
      rw [allot_cons, ih, List.length_cons, List.countP_cons, Substitution.snd_allot,
        Substitution.length_columns_ofVariable]
      omega

lemma numColumns_ofVariables (vars : List (Variable α)) :
    (ofVariables vars).numColumns = vars.length + vars.countP Variable.isUnbounded := by
  rw [← Nat.zero_add vars.length]
  exact snd_allot_eq_countP vars 0

/-- If all variables are valid, those without a finite bound are those between two infinities. -/
lemma map_isFree (h : ∀ v ∈ vars, v.Valid) :
    vars.map Variable.isFree = vars.map Variable.isUnbounded :=
  List.map_congr_left fun v hv => (h v hv).isFree_eq

lemma countP_isFree (h : ∀ v ∈ vars, v.Valid) :
    vars.countP Variable.isFree = vars.countP Variable.isUnbounded :=
  List.countP_congr fun v hv => by rw [(h v hv).isFree_eq]

/-- Put one after the other, the columns of the variables are all columns from the first one. -/
lemma columns_ofVariables (vars : List (Variable α)) :
    (ofVariables vars).substitutions.flatMap Substitution.columns =
      List.range (ofVariables vars).numColumns := by
  rw [List.range_eq_range']
  exact flatMap_columns_allot vars 0

lemma nodup_flatMap_columns (vars : List (Variable α)) :
    ((ofVariables vars).substitutions.flatMap Substitution.columns).Nodup := by
  rw [columns_ofVariables]
  exact List.nodup_range

/-- No variable uses a column twice. -/
lemma nodup_columns (hs : s ∈ (ofVariables vars).substitutions) : s.columns.Nodup :=
  (List.nodup_flatMap.mp (nodup_flatMap_columns vars)).1 s hs

/-- No two variables share a column. -/
lemma eq_of_mem_columns {k : ℕ} {s' : Substitution α}
    (hs : (ofVariables vars).substitutions[i]? = some s)
    (hs' : (ofVariables vars).substitutions[k]? = some s') (hc : c ∈ s.columns)
    (hc' : c ∈ s'.columns) : i = k := by
  obtain ⟨hi, rfl⟩ := List.getElem?_eq_some_iff.mp hs
  obtain ⟨hk, rfl⟩ := List.getElem?_eq_some_iff.mp hs'
  have hdisjoint := List.pairwise_iff_getElem.mp
    (List.nodup_flatMap.mp (nodup_flatMap_columns vars)).2
  rcases lt_trichotomy i k with hlt | heq | hlt
  · exact absurd hc' (hdisjoint i k hi hk hlt hc)
  · exact heq
  · exact absurd hc (hdisjoint k i hk hi hlt hc')

/-- Each column belongs to one variable. -/
theorem existsUnique_mem_columns (hc : c < (ofVariables vars).numColumns) :
    ∃! i : ℕ, ∃ s, (ofVariables vars).substitutions[i]? = some s ∧ c ∈ s.columns := by
  rw [← List.mem_range, ← columns_ofVariables] at hc
  obtain ⟨s, hs, hcs⟩ := List.mem_flatMap.mp hc
  obtain ⟨i, hi⟩ := List.mem_iff_getElem?.mp hs
  exact ⟨i, ⟨s, hi, hcs⟩, fun k ⟨s', hk, hcs'⟩ => eq_of_mem_columns hk hi hcs' hcs⟩

/-- The values of all variables are read where the vector reaches all columns. -/
lemma values_eq_ok_valueAt {x : Coords α}
    (h : ∀ s ∈ map.substitutions, ∀ c ∈ s.columns, c < x.size) :
    map.values x = .ok (map.substitutions.map (·.valueAt x)).toArray := by
  have hmap : map.substitutions.mapM (·.valueWith x.entry) =
      .ok (map.substitutions.map (·.valueAt x)) :=
    mapM_eq_ok fun s hs => Substitution.value_eq_ok_valueAt (h s hs)
  rw [values, valuesWith, hmap]
  rfl

/-- There are as many of them as variables. -/
lemma exists_values {x : Coords α} (h : ∀ s ∈ map.substitutions, ∀ c ∈ s.columns, c < x.size) :
    ∃ values, map.values x = .ok values ∧ values.size = map.substitutions.length :=
  ⟨_, values_eq_ok_valueAt h, by simp⟩

end ColumnMap

/-! ### What is read -/

/-- Reads an entry of a vector and writes down its index behind those that were read before. -/
def Coords.entryLogged (x : Coords α) (c : ℕ) : StateT (List ℕ) (Except Fault) α := fun log => do
  return (← x.entry c, log ++ [c])

omit [Scalar α] in
lemma Coords.run_entryLogged (x : Coords α) (c : ℕ) (log : List ℕ) :
    (x.entryLogged c).run log = (x.entry c).map fun value => (value, log ++ [c]) := by
  change (do return (← x.entry c, log ++ [c])) = _
  cases x.entry c <;> rfl

/-- A variable is read off its own columns, in order and each of them once. -/
lemma Substitution.run_valueWith (s : Substitution α) (x : Coords α) (log : List ℕ) :
    (s.valueWith x.entryLogged).run log =
      (s.value x).map fun value => (value, log ++ s.columns) := by
  cases s with
  | shifted lower column =>
      simp only [value, valueWith, StateT.run_bind, StateT.run_pure, Coords.run_entryLogged]
      cases x.entry column <;> rfl
  | reflected upper column =>
      simp only [value, valueWith, StateT.run_bind, StateT.run_pure, Coords.run_entryLogged]
      cases x.entry column <;> rfl
  | split positive negative =>
      simp only [value, valueWith, StateT.run_bind, StateT.run_pure, Coords.run_entryLogged]
      cases x.entry positive with
      | error fault => rfl
      | ok first =>
          change Except.bind (Except.map _ (x.entry negative)) _ =
            Except.map _ (Except.bind (x.entry negative) _)
          cases x.entry negative with
          | error fault => rfl
          | ok second => simp [columns, Except.map, Except.bind, pure, Except.pure]

lemma Substitution.run_mapM_valueWith (ss : List (Substitution α)) (x : Coords α) (log : List ℕ) :
    (ss.mapM (valueWith · x.entryLogged)).run log =
      (ss.mapM (value · x)).map fun values => (values, log ++ ss.flatMap columns) := by
  induction ss generalizing log with
  | nil =>
      rw [List.flatMap_nil, List.append_nil]
      rfl
  | cons s ss ih =>
      simp only [List.mapM_cons, StateT.run_bind, StateT.run_pure, run_valueWith, ih]
      cases s.value x with
      | error fault => rfl
      | ok first =>
          change Except.bind (Except.map _ (ss.mapM (value · x))) _ =
            Except.map _ (Except.bind (ss.mapM (value · x)) _)
          cases ss.mapM (value · x) with
          | error fault => rfl
          | ok values => simp [Except.map, Except.bind, pure, Except.pure]

/-- All variables are read off all their columns, one variable behind the other. -/
theorem ColumnMap.run_valuesWith (map : ColumnMap α) (x : Coords α) :
    (map.valuesWith x.entryLogged).run [] = (map.values x).map fun values =>
      (values, map.substitutions.flatMap Substitution.columns) := by
  simp only [valuesWith, StateT.run_bind, StateT.run_pure, Substitution.run_mapM_valueWith]
  change _ = Except.map _ (Except.bind (map.substitutions.mapM (Substitution.value · x)) _)
  cases map.substitutions.mapM (Substitution.value · x) <;> rfl

end Columns

/-! ### Rows at a point -/

namespace Coords

variable {row : Coords ℚ} {y : ℕ → ℚ} {n j : ℕ}

/-- A row of columns at a point. -/
def dot (row : Coords ℚ) (y : ℕ → ℚ) : ℚ := ∑ j ∈ range row.size, row.coord j * y j

@[simp] lemma dot_zeros (n : ℕ) (y : ℕ → ℚ) : (zeros n : Coords ℚ).dot y = 0 := by
  simp [dot]

/-- A row with a single one reads that column. -/
lemma dot_unit (hj : j < n) (y : ℕ → ℚ) : (unit n j : Coords ℚ).dot y = y j := by
  have hcell : ∀ i ∈ range n, (unit n j : Coords ℚ).coord i * y i = if i = j then y j else 0 := by
    intro i hi
    rw [unit, coord_tabulate, if_pos (mem_range.mp hi)]
    split_ifs with h
    · rw [h, one_mul]
    · rw [zero_mul]
  rw [dot, size_unit, sum_congr rfl hcell, sum_ite_eq', if_pos (mem_range.mpr hj)]

/-- Adding to one cell adds that multiple of the column. -/
lemma dot_modify (hj : j < row.size) (f : ℚ → ℚ) {w : ℚ} (hf : f (row.coord j) = row.coord j + w)
    (y : ℕ → ℚ) : dot (row.modify j f) y = row.dot y + w * y j := by
  have hcell : ∀ i ∈ range row.size, coord (row.modify j f) i * y i =
      row.coord i * y i + if i = j then w * y j else 0 := by
    intro i hi
    rw [coord_modify]
    by_cases hij : j = i
    · subst hij
      rw [if_pos ⟨rfl, hj⟩, if_pos rfl, hf, add_mul]
    · rw [if_neg (fun h => hij h.1), if_neg (fun h => hij h.symm), add_zero]
  rw [dot, Array.size_modify, sum_congr rfl hcell, sum_add_distrib, sum_ite_eq',
    if_pos (mem_range.mpr hj), ← dot]

end Coords

/-! ### One variable -/

namespace Substitution

variable {s : Substitution ℚ} {x row : Coords ℚ} {y z : ℕ → ℚ} {v : Variable ℚ} {a : ℚ}

/-- The value of the variable where the columns have given values. -/
def eval (s : Substitution ℚ) (y : ℕ → ℚ) : ℚ :=
  match s with
  | shifted lower column => lower + y column
  | reflected upper column => upper - y column
  | split positive negative => y positive - y negative

lemma valueAt_eq (s : Substitution ℚ) (x : Coords ℚ) : s.valueAt x = s.eval x.coord := by
  cases s <;> rfl

/-- Only the columns of the expression matter. -/
lemma eval_congr (h : ∀ c ∈ s.columns, y c = z c) : s.eval y = s.eval z := by
  cases s with
  | shifted lower column => simp only [eval, h column (by simp)]
  | reflected upper column => simp only [eval, h column (by simp)]
  | split positive negative =>
      simp only [eval, h positive (by simp), h negative (by simp)]

/-- The value is read where the vector reaches the columns. -/
lemma value_eq_ok (h : ∀ c ∈ s.columns, c < x.size) : s.value x = .ok (s.eval x.coord) := by
  rw [value_eq_ok_valueAt h, valueAt_eq]

/-- Together with the constant part, a row gains the multiple of the variable. -/
lemma dot_addTo (h : ∀ c ∈ s.columns, c < row.size) (weight : ℚ) (y : ℕ → ℚ) :
    (s.addTo weight row).dot y + s.offset weight = row.dot y + weight * s.eval y := by
  cases s with
  | shifted lower column =>
      have hcolumn : column < row.size := h column (by simp)
      simp only [addTo, offset, eval]
      rw [Coords.dot_modify hcolumn (· + weight) rfl]
      ring
  | reflected upper column =>
      have hcolumn : column < row.size := h column (by simp)
      simp only [addTo, offset, eval]
      rw [Coords.dot_modify hcolumn (· - weight) (sub_eq_add_neg _ _)]
      ring
  | split positive negative =>
      have hpositive : positive < row.size := h positive (by simp)
      have hnegative : negative < (row.modify positive (· + weight)).size := by
        simpa using h negative (by simp)
      simp only [addTo, offset, eval]
      rw [Coords.dot_modify hnegative (· - weight) (sub_eq_add_neg _ _),
        Coords.dot_modify hpositive (· + weight) rfl]
      ring

end Substitution

/-! ### Bounds -/

namespace Variable

variable {v : Variable ℚ} {a : ℚ}

/-- Without slack, a value lies within the bounds that are given. -/
lemma contains_zero_iff :
    v.contains a 0 ↔ (∀ lower, v.lower = some lower → lower ≤ a) ∧
      ∀ upper, v.upper = some upper → a ≤ upper := by
  have hbelow : Scalar.belowTop (0 : ℚ) = true := rfl
  rcases v with ⟨name, _ | lower, _ | upper⟩ <;> simp [contains, hbelow]

/-- A value within the bounds has nonnegative columns. -/
lemma exists_eval_eq (h : v.contains a 0) (next : ℕ) :
    ∃ y : ℕ → ℚ, (∀ j, 0 ≤ y j) ∧ (Substitution.ofVariable v next).eval y = a := by
  obtain ⟨hlower, hupper⟩ := contains_zero_iff.mp h
  obtain ⟨lower, hl, hs⟩ | ⟨upper, -, hu, hs⟩ | ⟨-, -, hs⟩ := Substitution.ofVariable_cases v next
  · rw [finiteLower_rat] at hl
    rw [hs]
    exact ⟨fun _ => a - lower, fun _ => sub_nonneg.mpr (hlower lower hl), add_sub_cancel _ _⟩
  · rw [finiteUpper_rat] at hu
    rw [hs]
    exact ⟨fun _ => upper - a, fun _ => sub_nonneg.mpr (hupper upper hu), sub_sub_cancel _ _⟩
  · rw [hs]
    refine ⟨fun j => if j = next then max a 0 else max (-a) 0, fun j => ?_, ?_⟩
    · dsimp only
      split_ifs
      · exact le_max_right _ _
      · exact le_max_right _ _
    · have hsplit : max a 0 - max (-a) 0 = a := by
        rcases le_total a 0 with ha | ha
        · rw [max_eq_right ha, max_eq_left (neg_nonneg.mpr ha)]
          ring
        · rw [max_eq_left ha, max_eq_right (neg_nonpos.mpr ha), sub_zero]
      simp only [Substitution.eval, if_true, if_neg (Nat.succ_ne_self next)]
      exact hsplit

end Variable

/-! ### All variables -/

namespace ColumnMap

variable {map : ColumnMap ℚ} {vars : List (Variable ℚ)} {v : Variable ℚ} {s : Substitution ℚ}
  {x : ℕ → ℚ} {y : ℕ → ℚ} {i next c : ℕ}

/-- The values of the variables where the columns have given values. -/
def assignment (map : ColumnMap ℚ) (y : ℕ → ℚ) (i : ℕ) : ℚ :=
  (map.substitutions[i]?.map (·.eval y)).getD 0

lemma assignment_of_getElem? (h : map.substitutions[i]? = some s) (y : ℕ → ℚ) :
    map.assignment y i = s.eval y := by
  simp [assignment, h]

/-- All values are read where the vector reaches the columns. -/
lemma values_eq_ok {x : Coords ℚ} (h : ∀ s ∈ map.substitutions, ∀ c ∈ s.columns, c < x.size) :
    ∃ values, map.values x = .ok values ∧ values.size = map.substitutions.length ∧
      values.coord = map.assignment x.coord := by
  refine ⟨_, values_eq_ok_valueAt h, by simp, ?_⟩
  funext i
  simp [Coords.coord_eq_getElem?, assignment, Substitution.valueAt_eq]

/-- The value of one variable is read likewise. -/
lemma value_eq_ok {x : Coords ℚ} (h : ∀ s ∈ map.substitutions, ∀ c ∈ s.columns, c < x.size)
    {id : VariableId} (hid : id.index < map.substitutions.length) :
    map.value id x = .ok (some (map.assignment x.coord id.index)) := by
  have hs := List.getElem?_eq_getElem hid
  have hvalue := Substitution.value_eq_ok (h _ (List.getElem_mem hid))
  rw [value, substitution?, hs, assignment_of_getElem? hs]
  simp [Option.mapM, hvalue]

/-- Every assignment within the bounds is that of a nonnegative point. -/
theorem exists_columns (hx : ∀ i (v : Variable ℚ), vars[i]? = some v → v.contains (x i) 0)
    (next : ℕ) :
    ∃ y : ℕ → ℚ, (∀ j, 0 ≤ y j) ∧
      ∀ i s, (allot vars next).1[i]? = some s → s.eval y = x i := by
  induction vars generalizing x next with
  | nil => exact ⟨0, fun _ => le_rfl, fun i s h => absurd h (by simp [allot])⟩
  | cons v vars ih =>
      set limit := (Substitution.allot v next).2
      obtain ⟨first, hfirst, heval⟩ := Variable.exists_eval_eq (hx 0 v rfl) next
      obtain ⟨rest, hrest, hevals⟩ := @ih (fun i => x (i + 1)) (fun i => hx (i + 1)) limit
      -- the columns of the first variable are those below the limit, the others have the rest
      refine ⟨fun j => if j < limit then first j else rest j, fun j => ?_, fun i s hs => ?_⟩
      · dsimp only
        split_ifs
        · exact hfirst j
        · exact hrest j
      · cases i with
        | zero =>
            obtain rfl : Substitution.ofVariable v next = s := by simpa [allot_cons] using hs
            rw [← heval]
            refine Substitution.eval_congr fun c hc => if_pos ?_
            exact (Substitution.mem_columns_ofVariable.mp hc).2
        | succ i =>
            have hs : (allot vars limit).1[i]? = some s := by simpa [allot_cons] using hs
            rw [← hevals i s hs]
            refine Substitution.eval_congr fun c hc => if_neg (not_lt.mpr ?_)
            exact (mem_columns_allot (List.mem_of_getElem? hs) hc).1

end ColumnMap

end LinProg
