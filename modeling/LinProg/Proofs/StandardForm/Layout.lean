import LinProg.Proofs.Dictionary.History
import LinProg.Proofs.Session
import LinProg.Proofs.StandardForm.Meaning

/-!
How the columns of a canonical form are dealt out to the variables of its model, in any arithmetic.

* `Substitution.Suits`: an expression is of the kind that the finite bounds of its variable ask for.
* `StandardForm.LaidOut`: the expressions of the variables use the columns of a program in order,
  each of them once. `laidOut_of_ofModel_eq_ok` and `numColumns_of_ofModel_eq_ok` say that this is
  so, and that the program has no other columns.
* `ColumnMap.Reads`: the values of all variables, read together and one by one, with the columns
  that are read for them. `LaidOut.exists_reads` has them for every point with a value for each
  column.
* `ofModel_laidOut`: every canonical form is laid out so, and values are read off every such point,
  those that the solver gives among them.
-/

namespace LinProg

variable {α : Type} [Scalar α]

/-! ### One variable -/

/-- The expression starts from the lower bound where that is finite, from the upper bound where only
that is, and is a difference where neither is. -/
structure Substitution.Suits (s : Substitution α) (v : Variable α) : Prop where
  shifted_iff : ∀ lower, (∃ column, s = .shifted lower column) ↔ v.finiteLower = some lower
  reflected_iff : ∀ upper, (∃ column, s = .reflected upper column) ↔
    v.finiteLower = none ∧ v.finiteUpper = some upper
  split_iff : (∃ positive negative, s = .split positive negative) ↔
    v.finiteLower = none ∧ v.finiteUpper = none

namespace Substitution

variable {s : Substitution α} {x y : Coords α}

lemma suits_ofVariable (v : Variable α) (next : ℕ) : (ofVariable v next).Suits v := by
  obtain ⟨lower, hl, hs⟩ | ⟨upper, hl, hu, hs⟩ | ⟨hl, hu, hs⟩ := ofVariable_cases v next
  · constructor <;> simp [hs, hl]
  · constructor <;> simp [hs, hl, hu]
  · constructor <;> simp [hs, hl, hu]

/-- The value of a variable depends on its own columns only. -/
lemma valueAt_congr (h : ∀ c ∈ s.columns, x.coord c = y.coord c) : s.valueAt x = s.valueAt y := by
  cases s with
  | shifted lower column => simp only [valueAt, h column (by simp)]
  | reflected upper column => simp only [valueAt, h column (by simp)]
  | split positive negative => simp only [valueAt, h positive (by simp), h negative (by simp)]

end Substitution

namespace Variable

variable {v : Variable α}

/-- The bounds of a valid variable are finite where they are given. -/
lemma Valid.finite_eq (h : v.Valid) : v.finiteLower = v.lower ∧ v.finiteUpper = v.upper :=
  ⟨finiteLower_eq h.all_isFinite.1, finiteUpper_eq h.all_isFinite.2⟩

/-- Where zero is finite, all ways to make a variable make valid ones. -/
lemma Registrable.valid (hzero : Scalar.isFinite (0 : α) = true) (h : v.Registrable) :
    v.Valid := by
  obtain h | h | h := h
  · exact h
  · rw [h]
    simp [Valid, boundsValid, nonnegative, hzero]
  · rw [h]
    rfl

end Variable

/-! ### All variables -/

/-- The columns of a program are dealt out to variables, in order and without gaps. -/
structure StandardForm.LaidOut (form : StandardForm α) (map : ColumnMap α)
    (vars : List (Variable α)) : Prop where
  length_eq : map.substitutions.length = vars.length
  /-- Put one after the other, the columns of the variables are all columns from the first one. -/
  columns_eq : map.substitutions.flatMap Substitution.columns = List.range map.numColumns
  /-- No two variables share a column. -/
  existsUnique_mem_columns : ∀ c < map.numColumns,
    ∃! i : ℕ, ∃ s, map.substitutions[i]? = some s ∧ c ∈ s.columns
  suits : ∀ (i : ℕ) (v : Variable α), vars[i]? = some v →
    ∃ s : Substitution α, map.substitutions[i]? = some s ∧ s.Suits v
  numColumns_eq : map.numColumns = vars.length + vars.countP Variable.isUnbounded
  /-- Of valid variables, those between two infinities take a second column. -/
  numColumns_eq_of_valid : (∀ v ∈ vars, v.Valid) →
    map.numColumns = vars.length + vars.countP Variable.isFree
  cols_eq : form.a.cols = map.numColumns
  size_c : form.c.size = map.numColumns

namespace ColumnMap

variable {map : ColumnMap α} {vars : List (Variable α)} {x y : Coords α} {id : VariableId}

/-- These are the values of the variables at a point, all together or one by one, and there is none
for any other variable. For all of them together each column of the map is read once, in order, and
for each of them its own columns are. -/
structure Reads (map : ColumnMap α) (x values : Coords α) : Prop where
  values_eq : map.values x = .ok values
  value_eq : ∀ id, map.value id x = .ok values[id.index]?
  run_valuesWith : (map.valuesWith x.entryLogged).run [] = .ok (values, List.range map.numColumns)
  run_valueWith : ∀ (i : ℕ) s, map.substitutions[i]? = some s →
    values[i]? = some (s.valueAt x) ∧
      (s.valueWith x.entryLogged).run [] = .ok (s.valueAt x, s.columns)

/-- Values are read off every point that reaches the columns of a map that lists them in order. -/
lemma exists_reads (h : ∀ s ∈ map.substitutions, ∀ c ∈ s.columns, c < x.size)
    (hcolumns : map.substitutions.flatMap Substitution.columns = List.range map.numColumns) :
    ∃ values : Coords α, values.size = map.substitutions.length ∧ map.Reads x values := by
  have hvalues := values_eq_ok_valueAt h
  refine ⟨_, by simp, hvalues, fun id => ?_, ?_, fun i s hs => ?_⟩
  · cases hs : map.substitutions[id.index]? with
    | none => simp [value, substitution?, hs, Option.mapM, pure, Except.pure]
    | some s =>
        have hvalue := Substitution.value_eq_ok_valueAt (h s (List.mem_of_getElem? hs))
        simp [value, substitution?, hs, Option.mapM, hvalue, Functor.map, Except.map]
  · rw [ColumnMap.run_valuesWith, hvalues, hcolumns]
    rfl
  · have hvalue := Substitution.value_eq_ok_valueAt (h s (List.mem_of_getElem? hs))
    refine ⟨by simp [hs], ?_⟩
    rw [Substitution.run_valueWith, hvalue]
    rfl

/-- A value that is read off two points is the same where they agree in the columns of the
variable. -/
lemma value_congr (hx : ∀ s ∈ map.substitutions, ∀ c ∈ s.columns, c < x.size)
    (hy : ∀ s ∈ map.substitutions, ∀ c ∈ s.columns, c < y.size)
    (h : ∀ s, map.substitution? id = some s → ∀ c ∈ s.columns, x.coord c = y.coord c) :
    map.value id x = map.value id y := by
  cases hs : map.substitution? id with
  | none => simp [value, hs]
  | some s =>
      have hmem := List.mem_of_getElem? hs
      have hvalue := Substitution.valueAt_congr (h s hs)
      simp [value, hs, Substitution.value_eq_ok_valueAt (hx s hmem),
        Substitution.value_eq_ok_valueAt (hy s hmem), hvalue]

end ColumnMap

namespace StandardForm

variable {vars : List (Variable α)} {constraints : List (Constraint α)}
  {objective? : Option (Objective α)} {form : StandardForm α} {map : ColumnMap α}

/-- A canonical form has the columns of its map, and its map is that of the variables. -/
lemma numColumns_of_ofModel_eq_ok (h : ofModel vars constraints objective? = .ok (form, map)) :
    map = ColumnMap.ofVariables vars ∧ form.numColumns = map.numColumns := by
  obtain ⟨objective, rfl, hconstraints, hobjective⟩ := known_of_ofModel_eq_ok h
  obtain ⟨form', hform', hcolumns, -⟩ := exists_ofModel_size hconstraints hobjective
  obtain ⟨rfl, rfl⟩ := Prod.mk.inj (Except.ok.inj (hform'.symm.trans h))
  exact ⟨rfl, hcolumns.trans (ColumnMap.numColumns_ofVariables vars).symm⟩

/-- Every canonical form is laid out over the variables of its model. -/
lemma laidOut_of_ofModel_eq_ok (h : ofModel vars constraints objective? = .ok (form, map)) :
    form.LaidOut map vars := by
  have hcols := (wellShaped_of_ofModel_eq_ok h).2.2
  obtain ⟨rfl, hcolumns⟩ := numColumns_of_ofModel_eq_ok h
  exact
    { length_eq := ColumnMap.length_fst_allot vars 0
      columns_eq := ColumnMap.columns_ofVariables vars
      existsUnique_mem_columns := fun c hc => ColumnMap.existsUnique_mem_columns hc
      suits := fun i v hv => by
        obtain ⟨k, hs⟩ := ColumnMap.exists_substitution hv 0
        exact ⟨_, hs, Substitution.suits_ofVariable v k⟩
      numColumns_eq := ColumnMap.numColumns_ofVariables vars
      numColumns_eq_of_valid := fun hvalid => by
        rw [ColumnMap.countP_isFree hvalid, ColumnMap.numColumns_ofVariables]
      cols_eq := hcols.trans hcolumns
      size_c := hcolumns }

/-- A point with a value for each column reaches the columns of all variables. -/
lemma LaidOut.lt_size (h : form.LaidOut map vars) {x : Coords α} (hsize : x.size = map.numColumns) :
    ∀ s ∈ map.substitutions, ∀ c ∈ s.columns, c < x.size := by
  intro s hs c hc
  rw [hsize, ← List.mem_range, ← h.columns_eq]
  exact List.mem_flatMap.mpr ⟨s, hs, hc⟩

/-- Values are read off every point with a value for each column. -/
lemma LaidOut.exists_reads (h : form.LaidOut map vars) {x : Coords α}
    (hsize : x.size = map.numColumns) :
    ∃ values : Coords α, values.size = vars.length ∧ map.Reads x values := by
  rw [← h.length_eq]
  exact ColumnMap.exists_reads (h.lt_size hsize) h.columns_eq

/-- Whatever the variables of a model are, their columns are those of its canonical form, dealt out
in order of registration: one to a variable with a finite lower bound, which is shifted by it, one
to a variable whose upper bound alone is finite, which is reflected in it, and two to any other one,
which is their difference. The bounds of a valid variable are finite where they are given; so are
those of every variable that can be registered where zero is. A value for each variable is read off
every point with a value for each column; for all of them together each column is read once, and the
value of a variable depends on its own columns only. The points that the solver gives are such
points. -/
theorem ofModel_laidOut (h : ofModel vars constraints objective? = .ok (form, map)) :
    form.LaidOut map vars ∧
    (∀ v ∈ vars, v.Valid → v.finiteLower = v.lower ∧ v.finiteUpper = v.upper) ∧
    (Scalar.isFinite (0 : α) = true → (∀ v ∈ vars, v.Registrable) → ∀ v ∈ vars, v.Valid) ∧
    (∀ x : Coords α, x.size = map.numColumns →
      ∃ values : Coords α, values.size = vars.length ∧ map.Reads x values) ∧
    (∀ id (x y : Coords α), x.size = map.numColumns → y.size = map.numColumns →
      (∀ s, map.substitution? id = some s → ∀ c ∈ s.columns, x.coord c = y.coord c) →
      map.value id x = map.value id y) ∧
    ∀ (solver : Solver α) s, (solver.solve form).result = .ok s → s.status = .feasible →
      ∃ x values : Coords α, s.values = some x ∧ x.size = map.numColumns ∧
        values.size = vars.length ∧ map.Reads x values := by
  have hlaid := laidOut_of_ofModel_eq_ok h
  refine ⟨hlaid, fun v _ hvalid => hvalid.finite_eq,
    fun hzero hvars v hv => (hvars v hv).valid hzero, fun x => hlaid.exists_reads,
    fun id x y hx hy => ColumnMap.value_congr (hlaid.lt_size hx) (hlaid.lt_size hy),
    fun solver s hs hstatus => ?_⟩
  cases Solver.fits_of_solve hs with
  | @feasible x hsize objective pivots =>
      have hcolumns : x.size = map.numColumns := hsize.trans hlaid.size_c
      obtain ⟨values, hvalues, hreads⟩ := hlaid.exists_reads hcolumns
      exact ⟨x, values, rfl, hcolumns, hvalues, hreads⟩
  | infeasible pivots => cases hstatus
  | unbounded pivots => cases hstatus

/-- The mixed model has four columns, two of them those of the free variable, and its optimal point
gives a value to each of the three variables, for which each column is read once. -/
theorem ofModel_laidOut_mixed :
    ∃ form map, ofModel mixedVariables mixedConstraints (some mixedObjective) = .ok (form, map) ∧
      form.LaidOut map mixedVariables ∧ map.numColumns = 4 ∧
      map.substitutions = [.shifted 1 0, .split 1 2, .reflected 2 3] ∧
      ∃ s x values, ((⟨1 / 10⟩ : Solver ℚ).solve form).result = .ok s ∧ s.values = some x ∧
        map.Reads x values ∧
        (map.valuesWith x.entryLogged).run [] = .ok (values, [0, 1, 2, 3]) := by
  obtain ⟨form, hform, -⟩ := @exists_ofModel_size ℚ _ mixedVariables mixedConstraints
    mixedObjective (by decide) (by decide)
  obtain ⟨hlaid, -, -, -, -, hsolver⟩ := ofModel_laidOut hform
  have hrun : (ofModel mixedVariables mixedConstraints (some mixedObjective)).toOption.map
      (fun built => ((⟨1 / 10⟩ : Solver ℚ).solve built.1).result.map Solution.status) =
        some (.ok .feasible) := by decide +kernel
  rw [hform] at hrun
  have hstatus : ((⟨1 / 10⟩ : Solver ℚ).solve form).result.map Solution.status = .ok .feasible :=
    Option.some.inj hrun
  cases hsolve : ((⟨1 / 10⟩ : Solver ℚ).solve form).result with
  | error fault =>
      rw [hsolve] at hstatus
      cases hstatus
  | ok s =>
      rw [hsolve] at hstatus
      obtain ⟨x, values, hx, -, -, hreads⟩ := hsolver _ s hsolve (Except.ok.inj hstatus)
      exact ⟨form, _, hform, hlaid, rfl, rfl, s, x, values, hsolve, hx, hreads,
        hreads.run_valuesWith⟩

end StandardForm

end LinProg
