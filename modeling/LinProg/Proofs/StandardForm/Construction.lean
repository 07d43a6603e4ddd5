import LinProg.Proofs.DenseMatrix
import LinProg.Proofs.StandardForm.Size

/-!
The canonical form of a model, built in one pass with every index and every length checked.

* `Checked`, `Checked.Passes`: computations that may find a defect of the model or break off with a
  fault, and those whose checks all pass. `Passes.bind` is the rule for sequences of them, and
  `Passes.foldlM_push` that for loops that collect what each step gives.
* `ColumnMap.expandWithin`, `StandardForm.pushRow`, `StandardForm.construct`: a sum is added to a
  row term by term, a row is appended to the program built so far, and the first defect that is met
  ends the construction.
* `StandardForm.construct_passes`: the checks pass whatever the model is, and what is built is
  `StandardForm.ofModel`.
-/

namespace LinProg

variable {α : Type} [Scalar α]

/-! ### Checks that pass -/

/-- A computation that may find a defect of a model, or break off with a fault. -/
abbrev Checked (α β : Type) := ExceptT (ModelError α) (Except Fault) β

namespace Checked

variable {β γ σ δ : Type}

/-- No check fails, and the outcome is that of a computation without checks. -/
def Passes (x : Checked α β) (outcome : Except (ModelError α) β) : Prop := x.run = .ok outcome

omit [Scalar α] in
lemma Passes.pure (b : β) : Passes (Pure.pure b : Checked α β) (.ok b) := rfl

omit [Scalar α] in
/-- A check that passes. -/
lemma Passes.lift {x : Except Fault β} {b : β} (h : x = .ok b) :
    Passes (liftM x : Checked α β) (.ok b) := by
  rw [h]
  rfl

omit [Scalar α] in
/-- A search for defects, without checks. -/
lemma Passes.search (outcome : Except (ModelError α) β) :
    Passes (liftM outcome : Checked α β) outcome := rfl

omit [Scalar α] in
/-- The checks of a sequence pass if those of its first part do, and then those of the rest for what
the first part gives. Its outcome may be written as a function of another one. -/
lemma Passes.bind_map {x : Checked α β} {f : β → Checked α γ} {outcome : Except (ModelError α) δ}
    {F : δ → β} {g : δ → Except (ModelError α) γ} (h : Passes x (outcome.map F))
    (hf : ∀ d, outcome = .ok d → Passes (f (F d)) (g d)) : Passes (x >>= f) (outcome >>= g) := by
  rw [Passes, ExceptT.run_bind, h]
  cases outcome with
  | error error => rfl
  | ok d => exact hf d rfl

omit [Scalar α] in
lemma Passes.bind {x : Checked α β} {f : β → Checked α γ} {outcome : Except (ModelError α) β}
    {g : β → Except (ModelError α) γ} (h : Passes x outcome)
    (hf : ∀ b, outcome = .ok b → Passes (f b) (g b)) : Passes (x >>= f) (outcome >>= g) := by
  have hmap : outcome.map id = outcome := by cases outcome <;> rfl
  rw [← hmap] at h
  exact h.bind_map hf

omit [Scalar α] in
/-- A first part that gives a value, and the rest from there. -/
lemma Passes.goOn {x : Checked α β} {f : β → Checked α γ} {b : β}
    {outcome : Except (ModelError α) γ} (h : Passes x (.ok b)) (hf : Passes (f b) outcome) :
    Passes (x >>= f) outcome :=
  h.bind (g := fun _ => outcome) fun _ hb => Except.ok.inj hb ▸ hf

omit [Scalar α] in
/-- A loop each step of which adds what it gives to a list adds, all in all, what the steps give. -/
lemma Passes.foldlM_push {step : σ → γ → Checked α σ} {f : γ → Except (ModelError α) δ}
    {state : List δ → σ} {cs : List γ}
    (hstep : ∀ c ∈ cs, ∀ ds, Passes (step (state ds) c) ((f c).map fun d => state (ds ++ [d])))
    (ds : List δ) :
    Passes (cs.foldlM step (state ds)) ((cs.mapM f).map fun more => state (ds ++ more)) := by
  induction cs generalizing ds with
  | nil =>
      have hnil : state (ds ++ []) = state ds := congrArg state (List.append_nil ds)
      exact hnil ▸ Passes.pure (state ds)
  | cons c cs ih =>
      have hhead := hstep c List.mem_cons_self ds
      rw [List.foldlM_cons, List.mapM_cons]
      cases hc : f c with
      | error error =>
          rw [hc] at hhead
          exact hhead.bind (g := fun _ => .error error) fun b hb => by cases hb
      | ok d =>
          rw [hc] at hhead
          have htail := ih (fun c hc => hstep c (List.mem_cons_of_mem _ hc)) (ds ++ [d])
          have hloop : Passes (step (state ds) c >>= fun s => cs.foldlM step s) _ :=
            hhead.goOn htail
          cases hcs : cs.mapM f with
          | error error =>
              rw [hcs] at hloop
              exact hloop
          | ok more =>
              simp only [hcs, Except.map, List.append_assoc, List.singleton_append] at hloop
              exact hloop

end Checked

open Checked

/-! ### One row -/

/-- Adds a multiple of the variable to a row, which has to reach all columns of the expression. -/
def Substitution.addWithin (s : Substitution α) (weight : α) (row : Coords α) :
    Except Fault (Coords α) := do
  Fault.indexOutOfRange.unless (s.columns.all (· < row.size))
  return s.addTo weight row

/-- The same where the row reaches them. -/
lemma Substitution.addWithin_eq_ok {s : Substitution α} {row : Coords α}
    (h : ∀ c ∈ s.columns, c < row.size) (weight : α) :
    s.addWithin weight row = .ok (s.addTo weight row) := by
  have hall : s.columns.all (fun c => decide (c < row.size)) = true := by simpa using h
  simp only [addWithin, Fault.unless, hall, if_true]
  rfl

namespace ColumnMap

variable {map : ColumnMap α} {terms : Terms α}

/-- Adds a weighted sum with a sign to a row of columns, term by term, with the columns checked. -/
def expandWithin (map : ColumnMap α) (sign : α) (combine : α → α → α) (terms : Terms α)
    (start : Coords α × α) : Checked α (Coords α × α) :=
  terms.foldlM (fun (row, constant) (id, weight) => do
    let s ← liftM (map.find id)
    let row ← liftM (s.addWithin (sign * weight) row)
    return (row, combine constant (s.offset (sign * weight)))) start

omit [Scalar α] in
/-- What is found is one of the substitutions. -/
lemma mem_of_find_eq_ok {id : VariableId} {s : Substitution α} (h : map.find id = .ok s) :
    s ∈ map.substitutions := by
  rw [find, substitution?] at h
  split at h
  · rename_i hs
    exact Except.ok.inj h ▸ List.mem_of_getElem? hs
  · cases h

/-- A row that reaches the columns of all variables takes any sum. -/
lemma expandWithin_passes (sign : α) (combine : α → α → α) {start : Coords α × α}
    (h : ∀ s ∈ map.substitutions, ∀ c ∈ s.columns, c < start.1.size) :
    Passes (map.expandWithin sign combine terms start) (map.expand sign combine terms start) := by
  induction terms generalizing start with
  | nil => exact Passes.pure start
  | cons term terms ih =>
      rw [expandWithin, expand, List.foldlM_cons, List.foldlM_cons]
      refine Passes.bind ?_ fun next hnext => ih ?_
      · refine (Passes.search _).bind fun s hs => ?_
        exact (Passes.lift (Substitution.addWithin_eq_ok (h s (mem_of_find_eq_ok hs)) _)).goOn
          (Passes.pure _)
      · obtain ⟨s, -, hnext⟩ := bind_eq_ok.mp hnext
        obtain rfl := Except.ok.inj hnext
        simpa using h

/-- A row keeps its length. -/
lemma size_of_expand_eq_ok {sign : α} {combine : α → α → α} {start row : Coords α × α}
    (h : map.expand sign combine terms start = .ok row) : row.1.size = start.1.size := by
  obtain ⟨row', hrow', hsize⟩ := exists_expand_size (known_of_expand_eq_ok h) sign combine start
  rw [← hsize, Except.ok.inj (h.symm.trans hrow')]

end ColumnMap

/-! ### The program so far -/

namespace StandardForm

/-- Appends a row with its right-hand side. -/
def pushRow (form : StandardForm α) (row : Coords α × α) : Except Fault (StandardForm α) := do
  return { form with a := ← form.a.appendRow row.1, b := form.b.push row.2 }

/-- Appends the row of a variable, if it has one. Its column has to be one of the program. -/
def pushBound (form : StandardForm α) (entry : Variable α × Substitution α) :
    Checked α (StandardForm α) :=
  match boundRow? form.numColumns entry.1 entry.2 with
  | none => return form
  | some row => do
    liftM (Fault.indexOutOfRange.unless (entry.2.columns.all (· < form.numColumns)))
    liftM (form.pushRow row)

/-- Appends the row of a constraint with one of its signs. -/
def pushSide (map : ColumnMap α) (c : Constraint α) (form : StandardForm α) (sign : α) :
    Checked α (StandardForm α) := do
  let row ← map.expandWithin sign (· - ·) c.terms (Coords.zeros map.numColumns, sign * c.rhs)
  liftM (form.pushRow row)

/-- Appends the rows of a constraint, each as soon as it is read. -/
def pushConstraint (map : ColumnMap α) (form : StandardForm α) (c : Constraint α) :
    Checked α (StandardForm α) :=
  c.relation.signs.foldlM (pushSide map c) form

/-- The canonical form of a model in one pass: the objective has to be there; then the rows of the
bounds and of the constraints are appended to a program without rows; and the objective is read
last. -/
def construct (vars : List (Variable α)) (constraints : List (Constraint α))
    (objective? : Option (Objective α)) : Checked α (StandardForm α × ColumnMap α) := do
  let some objective := objective? | throw .missingObjective
  let map := ColumnMap.ofVariables vars
  let form ← liftM
    (ofParts (DenseMatrix.zeros 0 map.numColumns) #[] (Coords.zeros map.numColumns) 0)
  let form ← (vars.zip map.substitutions).foldlM pushBound form
  let form ← constraints.foldlM (pushConstraint map) form
  let (costs, constant) ← map.expandWithin objective.goal.sign (· + ·) objective.terms (form.c, 0)
  return ({ form with c := costs, constant := constant }, map)

variable {rows : List (Coords α × α)} {row : Coords α × α} {costs : Coords α} {constant : α}

/-- A program made of rows takes one more. -/
lemma pushRow_ofRows (h : row.1.size = costs.size) :
    (ofRows rows costs constant).pushRow row = .ok (ofRows (rows ++ [row]) costs constant) := by
  have hpush : (ofRows rows costs constant).a.appendRow row.1 =
      .ok (ofRows (rows ++ [row]) costs constant).a := by
    have hsize : ∀ rows : List (Coords α × α), (rows.map Prod.fst).toArray.size = rows.length := by
      simp
    simp only [ofRows, hsize, List.length_append, List.length_singleton]
    refine DenseMatrix.appendRow_ofFn h (fun i hi j _ => ?_) fun j _ => ?_
    · have hi : i < (rows.map Prod.fst).length := by simpa using hi
      simp [Array.getD_eq_getD_getElem?, List.getElem?_append_left hi]
    · simp [Array.getD_eq_getD_getElem?]
  rw [pushRow, hpush]
  simp [ofRows, bind, Except.bind, pure, Except.pure]

/-- A program without rows is the empty matrix with its costs. -/
lemma ofParts_zeros (n : ℕ) :
    ofParts (DenseMatrix.zeros 0 n) #[] (Coords.zeros n : Coords α) 0 =
      .ok (ofRows [] (Coords.zeros n) 0) := by
  have hmatrix : (DenseMatrix.zeros 0 n : DenseMatrix α) =
      (ofRows [] (Coords.zeros n : Coords α) 0).a := by
    refine DenseMatrix.ext_get (DenseMatrix.wellShaped_ofFn _ _ _)
      (DenseMatrix.wellShaped_ofFn _ _ _) rfl (Coords.size_zeros n).symm fun i hi => ?_
    exact absurd hi (Nat.not_lt_zero i)
  rw [ofParts, hmatrix]
  simp [ofRows, DenseMatrix.ofFn, Fault.unless, bind, Except.bind, pure, Except.pure]

/-! ### Whole models -/

variable {vars : List (Variable α)} {map : ColumnMap α} {n : ℕ}

/-- A variable appends its row, if it has one. -/
lemma pushBound_passes {entry : Variable α × Substitution α} (h : ∀ k ∈ entry.2.columns, k < n)
    (rows : List (Coords α × α)) :
    Passes ((ofRows rows (Coords.zeros n) constant).pushBound entry)
      (.ok (ofRows (rows ++ (boundRow? n entry.1 entry.2).toList) (Coords.zeros n) constant)) := by
  have hcolumns : (ofRows rows (Coords.zeros n) constant).numColumns = n := Coords.size_zeros n
  have hall : entry.2.columns.all (fun c => decide (c < n)) = true := by simpa using h
  rw [pushBound, hcolumns]
  cases hrow : boundRow? n entry.1 entry.2 with
  | none =>
      rw [Option.toList_none, List.append_nil]
      exact Passes.pure _
  | some row =>
      have hsize : row.1.size = (Coords.zeros n : Coords α).size := by
        rw [size_of_boundRow?_eq_some hrow, Coords.size_zeros]
      exact (Passes.lift (Fault.unless_eq_ok (u := ()).mpr hall)).goOn
        (Passes.lift (pushRow_ofRows hsize))

/-- All variables append their rows. -/
lemma foldlM_pushBound_passes
    (hcolumns : ∀ s ∈ map.substitutions, ∀ k ∈ s.columns, k < map.numColumns) :
    Passes ((vars.zip map.substitutions).foldlM pushBound
        (ofRows [] (Coords.zeros map.numColumns) constant))
      (.ok (ofRows (boundRows vars map) (Coords.zeros map.numColumns) constant)) := by
  have hstep : ∀ entry ∈ vars.zip map.substitutions, ∀ rows : List (Option (Coords α × α)),
      Passes ((ofRows rows.reduceOption (Coords.zeros map.numColumns) constant).pushBound entry)
        (.ok (ofRows (rows ++ [boundRow? map.numColumns entry.1 entry.2]).reduceOption
          (Coords.zeros map.numColumns) constant)) := by
    intro entry hentry rows
    rw [List.reduceOption_append, List.reduceOption_singleton]
    exact pushBound_passes (hcolumns _ (List.of_mem_zip hentry).2) _
  have hloop := Passes.foldlM_push (f := fun entry : Variable α × Substitution α =>
    .ok (boundRow? map.numColumns entry.1 entry.2)) hstep []
  rw [mapM_eq_ok fun _ _ => rfl] at hloop
  simpa [boundRows, Except.map, List.reduceOption, List.filterMap_map, Function.comp_def] using
    hloop

/-- A constraint appends its row for a sign. -/
lemma pushSide_passes
    (hcolumns : ∀ s ∈ map.substitutions, ∀ k ∈ s.columns, k < map.numColumns)
    (c : Constraint α) (sign : α) (rows : List (Coords α × α)) (constant : α) :
    Passes (pushSide map c (ofRows rows (Coords.zeros map.numColumns) constant) sign)
      ((map.expand sign (· - ·) c.terms (Coords.zeros map.numColumns, sign * c.rhs)).map
        fun row => ofRows (rows ++ [row]) (Coords.zeros map.numColumns) constant) := by
  have hstart : ∀ s ∈ map.substitutions, ∀ k ∈ s.columns,
      k < (Coords.zeros map.numColumns : Coords α).size := by simpa using hcolumns
  exact (ColumnMap.expandWithin_passes sign (· - ·) hstart).bind
    (g := fun row => .ok (ofRows (rows ++ [row]) (Coords.zeros map.numColumns) constant))
    fun row hrow => Passes.lift (pushRow_ofRows (ColumnMap.size_of_expand_eq_ok hrow))

/-- Each constraint appends its rows. -/
lemma pushConstraint_passes
    (hcolumns : ∀ s ∈ map.substitutions, ∀ k ∈ s.columns, k < map.numColumns)
    (c : Constraint α) (rows : List (Coords α × α)) (constant : α) :
    Passes (pushConstraint map (ofRows rows (Coords.zeros map.numColumns) constant) c)
      ((constraintRows map c).map fun more =>
        ofRows (rows ++ more) (Coords.zeros map.numColumns) constant) := by
  have hstep : ∀ sign ∈ (c.relation.signs : List α), ∀ more,
      Passes (pushSide map c (ofRows (rows ++ more) (Coords.zeros map.numColumns) constant) sign)
        ((map.expand sign (· - ·) c.terms (Coords.zeros map.numColumns, sign * c.rhs)).map
          fun row => ofRows (rows ++ (more ++ [row])) (Coords.zeros map.numColumns) constant) := by
    intro sign _ more
    simpa only [List.append_assoc] using
      pushSide_passes hcolumns c sign (rows ++ more) constant
  have hloop := Passes.foldlM_push hstep []
  simp only [List.append_nil, List.nil_append] at hloop
  exact hloop

/-- All constraints append their rows. -/
lemma foldlM_pushConstraint_passes
    (hcolumns : ∀ s ∈ map.substitutions, ∀ k ∈ s.columns, k < map.numColumns)
    (constraints : List (Constraint α)) (rows : List (Coords α × α)) :
    Passes (constraints.foldlM (pushConstraint map)
        (ofRows rows (Coords.zeros map.numColumns) constant))
      ((constraints.mapM (constraintRows map)).map fun rowss =>
        ofRows (rows ++ rowss.flatten) (Coords.zeros map.numColumns) constant) := by
  have hstep : ∀ c ∈ constraints, ∀ rowss : List (List (Coords α × α)),
      Passes (pushConstraint map
          (ofRows (rows ++ rowss.flatten) (Coords.zeros map.numColumns) constant) c)
        ((constraintRows map c).map fun more =>
          ofRows (rows ++ (rowss ++ [more]).flatten) (Coords.zeros map.numColumns) constant) := by
    intro c _ rowss
    simpa only [List.flatten_append, List.flatten_singleton, List.append_assoc] using
      pushConstraint_passes hcolumns c (rows ++ rowss.flatten) constant
  have hloop := Passes.foldlM_push hstep []
  simpa only [List.flatten_nil, List.append_nil, List.nil_append] using hloop

/-- All checks pass, whatever the model is, and what is built is its canonical form. -/
theorem construct_passes (vars : List (Variable α)) (constraints : List (Constraint α))
    (objective? : Option (Objective α)) :
    Passes (construct vars constraints objective?) (ofModel vars constraints objective?) := by
  cases objective? with
  | none => rfl
  | some objective =>
      have hcolumns : ∀ s ∈ (ColumnMap.ofVariables vars).substitutions, ∀ k ∈ s.columns,
          k < (ColumnMap.ofVariables vars).numColumns :=
        fun s hs k hk => ColumnMap.lt_numColumns hs hk
      simp only [construct, ofModel]
      set map := ColumnMap.ofVariables vars
      refine (Passes.lift (ofParts_zeros _)).goOn ?_
      refine (foldlM_pushBound_passes hcolumns).goOn ?_
      refine (foldlM_pushConstraint_passes hcolumns constraints _).bind_map fun rowss _ => ?_
      have hcosts : ∀ s ∈ map.substitutions, ∀ k ∈ s.columns,
          k < (Coords.zeros map.numColumns : Coords α).size := by simpa using hcolumns
      refine (ColumnMap.expandWithin_passes _ _ hcosts).bind fun row hrow => ?_
      -- the costs take the place of the zeros, and the matrix only asks how many of them there are
      have hsize : row.1.size = map.numColumns :=
        (ColumnMap.size_of_expand_eq_ok hrow).trans (Coords.size_zeros _)
      simp only [ofRows, Coords.size_zeros, hsize]
      exact Passes.pure _

end StandardForm

end LinProg
