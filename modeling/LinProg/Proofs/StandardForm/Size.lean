import LinProg.Proofs.ColumnMap
import LinProg.StandardForm.OfModel

/-!
The size of the canonical form of a model, in any arithmetic.

* `ColumnMap.exists_expand_size`, `StandardForm.exists_constraintRows_length`: a sum over known
  variables becomes a row, and a constraint one or two of them.
* `StandardForm.length_boundRows`: a variable with two finite bounds has a row.
* `StandardForm.exists_ofModel_size`: a model whose sums name its own variables has a canonical
  form, with so many columns and rows.
* `StandardForm.known_of_ofModel_eq_ok`: no other model has one.
-/

namespace LinProg

variable {α : Type} [Scalar α]

/-- A constraint is one inequality `≤`, and an equation is two. -/
lemma Relation.length_signs (r : Relation) :
    (r.signs : List α).length = if r = .eq then 2 else 1 := by
  cases r <;> rfl

variable {map : ColumnMap α} {terms : Terms α} {c : Constraint α}

/-- A sum over known variables becomes a row of the given length. -/
lemma ColumnMap.exists_expand_size
    (hknown : ∀ term ∈ terms, term.1.index < map.substitutions.length) (sign : α)
    (combine : α → α → α) (start : Coords α × α) :
    ∃ row, map.expand sign combine terms start = .ok row ∧ row.1.size = start.1.size := by
  induction terms generalizing start with
  | nil => exact ⟨start, rfl, rfl⟩
  | cons term terms ih =>
      obtain ⟨id, weight⟩ := term
      have hid : id.index < map.substitutions.length := hknown (id, weight) (by simp)
      have hfind : map.find id = .ok map.substitutions[id.index] := by
        simp [find, substitution?, hid]
      obtain ⟨row, hrow, hsize⟩ := ih (fun term hterm => hknown term (by simp [hterm]))
        (map.substitutions[id.index].addTo (sign * weight) start.1,
          combine start.2 (map.substitutions[id.index].offset (sign * weight)))
      refine ⟨row, ?_, by simpa using hsize⟩
      rw [← hrow]
      simp [expand, hfind, bind, Except.bind, pure, Except.pure]

/-- A sum that becomes a row is one over known variables. -/
lemma ColumnMap.known_of_expand_eq_ok {sign : α} {combine : α → α → α} {start row : Coords α × α}
    (h : map.expand sign combine terms start = .ok row) :
    ∀ term ∈ terms, term.1.index < map.substitutions.length := by
  induction terms generalizing start with
  | nil => simp
  | cons term terms ih =>
      rw [expand, List.foldlM_cons] at h
      obtain ⟨next, hnext, hrest⟩ := bind_eq_ok.mp h
      obtain ⟨s, hfind, -⟩ := bind_eq_ok.mp hnext
      rw [find, substitution?] at hfind
      split at hfind
      · rename_i hs
        exact List.forall_mem_cons.mpr ⟨(List.getElem?_eq_some_iff.mp hs).1, ih hrest⟩
      · cases hfind

namespace StandardForm

/-- A constraint on known variables has a row for each sign. -/
lemma exists_constraintRows_length
    (hknown : ∀ term ∈ c.terms, term.1.index < map.substitutions.length) :
    ∃ rows, constraintRows map c = .ok rows ∧ rows.length = if c.relation = .eq then 2 else 1 := by
  have hrow : ∀ sign ∈ (c.relation.signs : List α), ∃ row,
      map.expand sign (· - ·) c.terms (Coords.zeros map.numColumns, sign * c.rhs) = .ok row ∧
        row.1.size = map.numColumns := by
    intro sign _
    obtain ⟨row, hrow, hsize⟩ := map.exists_expand_size hknown sign (· - ·)
      (Coords.zeros map.numColumns, sign * c.rhs)
    exact ⟨row, hrow, by simpa using hsize⟩
  obtain ⟨rows, hrows, hall⟩ := exists_mapM_eq_ok hrow
  exact ⟨rows, hrows, by rw [← hall.length_eq, Relation.length_signs]⟩

/-- The rows of all constraints: one for each inequality and two for each equation. -/
lemma exists_mapM_constraintRows_length {constraints : List (Constraint α)}
    (hknown : ∀ c ∈ constraints, ∀ term ∈ c.terms, term.1.index < map.substitutions.length) :
    ∃ rows, constraints.mapM (constraintRows map) = .ok rows ∧
      rows.flatten.length = constraints.countP (fun c => c.relation = .le) +
        constraints.countP (fun c => c.relation = .ge) +
        2 * constraints.countP (fun c => c.relation = .eq) := by
  induction constraints with
  | nil => exact ⟨[], rfl, rfl⟩
  | cons c constraints ih =>
      obtain ⟨first, hfirst, hlength⟩ := exists_constraintRows_length (hknown c (by simp))
      obtain ⟨rest, hrest, hlengths⟩ := ih fun c hc => hknown c (by simp [hc])
      refine ⟨first :: rest, ?_, ?_⟩
      · rw [List.mapM_cons, hfirst, hrest]
        rfl
      · rw [List.flatten_cons, List.length_append, hlength, hlengths]
        obtain ⟨terms, _ | _ | _, rhs⟩ := c <;> simp <;> omega

/-- The row of a variable has a cell for each column. -/
lemma size_of_boundRow?_eq_some {count : ℕ} {v : Variable α} {s : Substitution α}
    {row : Coords α × α} (h : boundRow? count v s = some row) : row.1.size = count := by
  unfold boundRow? at h
  split at h
  · obtain rfl := Option.some.inj h
    exact Coords.size_unit _ _
  · cases h

lemma boundRow?_shifted (count : ℕ) (v : Variable α) (lower : α) (column : ℕ) :
    boundRow? count v (.shifted lower column) =
      v.finiteUpper.map fun upper => (Coords.unit count column, upper - lower) := by
  cases hu : v.finiteUpper <;> simp [boundRow?, hu]

/-- A variable has a row where it has two finite bounds. -/
lemma isSome_boundRow? (count next : ℕ) (v : Variable α) :
    (boundRow? count v (Substitution.ofVariable v next)).isSome = v.isBoxed := by
  obtain ⟨lower, hl, hs⟩ | ⟨upper, hl, hu, hs⟩ | ⟨hl, hu, hs⟩ :=
    Substitution.ofVariable_cases v next
  · simp [hs, hl, Variable.isBoxed, boundRow?_shifted]
  · simp [hs, hl, Variable.isBoxed, boundRow?]
  · simp [hs, hl, Variable.isBoxed, boundRow?]

/-- There is a row for each variable with two finite bounds. -/
lemma length_boundRows (vars : List (Variable α)) :
    (boundRows vars (ColumnMap.ofVariables vars)).length = vars.countP Variable.isBoxed := by
  have hrows : ∀ count next, (vars.zip (ColumnMap.allot vars next).1).countP
      (fun entry => (boundRow? count entry.1 entry.2).isSome) = vars.countP Variable.isBoxed := by
    intro count
    induction vars with
    | nil => exact fun _ => rfl
    | cons v vars ih =>
        intro next
        rw [ColumnMap.allot_cons, List.zip_cons_cons, List.countP_cons, List.countP_cons, ih,
          isSome_boundRow?]
  rw [boundRows, List.length_filterMap_eq_countP]
  exact hrows _ 0

lemma numRows_ofRows {rows : List (Coords α × α)} {costs : Coords α} {constant : α} :
    (ofRows rows costs constant).numRows = rows.length := by
  simp [ofRows, numRows]

/-- A model whose sums name its own variables has a canonical form: with a column for each variable
and one more for each one without a finite bound; and with a row for each variable with two finite
bounds, for each inequality, and two for each equation. -/
theorem exists_ofModel_size {vars : List (Variable α)} {constraints : List (Constraint α)}
    {objective : Objective α}
    (hconstraints : ∀ c ∈ constraints, ∀ term ∈ c.terms, term.1.index < vars.length)
    (hobjective : ∀ term ∈ objective.terms, term.1.index < vars.length) :
    ∃ form, ofModel vars constraints (some objective) = .ok (form, ColumnMap.ofVariables vars) ∧
      form.numColumns = vars.length + vars.countP Variable.isUnbounded ∧
      form.numRows = vars.countP Variable.isBoxed +
        (constraints.countP (fun c => c.relation = .le) +
          constraints.countP (fun c => c.relation = .ge) +
          2 * constraints.countP (fun c => c.relation = .eq)) := by
  have hlength : (ColumnMap.ofVariables vars).substitutions.length = vars.length :=
    ColumnMap.length_fst_allot vars 0
  rw [← hlength] at hconstraints hobjective
  obtain ⟨rows, hrows, hcount⟩ := exists_mapM_constraintRows_length hconstraints
  obtain ⟨⟨costs, constant⟩, hcosts, hsize⟩ :=
    ColumnMap.exists_expand_size hobjective objective.goal.sign (· + ·)
      (Coords.zeros (ColumnMap.ofVariables vars).numColumns, 0)
  refine ⟨ofRows (boundRows vars (ColumnMap.ofVariables vars) ++ rows.flatten) costs constant,
    ?_, ?_, ?_⟩
  · simp [ofModel, hrows, hcosts, bind, Except.bind, pure, Except.pure]
  · rw [← ColumnMap.numColumns_ofVariables]
    simpa [ofRows, numColumns] using hsize
  · rw [numRows_ofRows, List.length_append, length_boundRows, hcount]

/-- A constraint that has rows is one on known variables. -/
lemma known_of_constraintRows_eq_ok {rows : List (Coords α × α)}
    (h : constraintRows map c = .ok rows) :
    ∀ term ∈ c.terms, term.1.index < map.substitutions.length := by
  obtain ⟨sign, hsign⟩ : ∃ sign : α, sign ∈ c.relation.signs := by
    cases c.relation <;> exact ⟨_, List.mem_cons_self⟩
  obtain ⟨row, hrow⟩ := exists_of_mapM_eq_ok h sign hsign
  exact ColumnMap.known_of_expand_eq_ok hrow

/-- A model that has a canonical form has an objective, and its sums name its own variables. -/
theorem known_of_ofModel_eq_ok {vars : List (Variable α)} {constraints : List (Constraint α)}
    {objective? : Option (Objective α)} {form : StandardForm α} {map : ColumnMap α}
    (h : ofModel vars constraints objective? = .ok (form, map)) :
    ∃ objective, objective? = some objective ∧
      (∀ c ∈ constraints, ∀ term ∈ c.terms, term.1.index < vars.length) ∧
      ∀ term ∈ objective.terms, term.1.index < vars.length := by
  have hlength : (ColumnMap.ofVariables vars).substitutions.length = vars.length :=
    ColumnMap.length_fst_allot vars 0
  cases objective? with
  | none => exact absurd h (by simp [ofModel, throw, throwThe, MonadExceptOf.throw])
  | some objective =>
      simp only [ofModel, bind_eq_ok] at h
      obtain ⟨rows, hrows, costs, hcosts, -⟩ := h
      refine ⟨objective, rfl, fun c hc => ?_, hlength ▸ ColumnMap.known_of_expand_eq_ok hcosts⟩
      obtain ⟨row, hrow⟩ := exists_of_mapM_eq_ok hrows c hc
      exact hlength ▸ known_of_constraintRows_eq_ok hrow

end StandardForm

end LinProg
