import LinProg.Proofs.StandardForm.Size

/-!
What is found wrong with a model that has no canonical form, in any arithmetic.

* `Terms.FirstUnknown`: the first variable of a sum that a model of a given size does not have.
* `StandardForm.modelTerms`: the sums of a model as one, in the order in which they are read.
* `ColumnMap.expand_of_firstUnknown`, `StandardForm.constraintRows_of_firstUnknown`,
  `StandardForm.mapM_constraintRows_of_firstUnknown`: reading ends at that variable, also where the
  rows before it are made already.
* `StandardForm.ofModel_eq_error_iff`, `StandardForm.exists_ofModel_iff`: the only defects are a
  missing objective and, where there is one, an unknown variable, the first of all sums.
-/

namespace LinProg

variable {α : Type}

/-! ### Unknown variables -/

namespace Terms

variable {terms before : Terms α} {count : ℕ} {id : VariableId}

/-- The variable is not among the first `count` ones, and all those before it in the sum are. -/
def FirstUnknown (terms : Terms α) (count : ℕ) (id : VariableId) : Prop :=
  ∃ (before : Terms α) (weight : α) (after : Terms α), terms = before ++ (id, weight) :: after ∧
    count ≤ id.index ∧ ∀ term ∈ before, term.1.index < count

/-- The search finds the first unknown variable. -/
lemma firstUnknown?_eq_some :
    terms.firstUnknown? count = some id ↔ terms.FirstUnknown count id := by
  have hfind : terms.firstUnknown? count =
      (terms.find? fun term => decide (count ≤ term.1.index)).map Prod.fst := List.find?_map ..
  rw [hfind, Option.map_eq_some_iff]
  constructor
  · rintro ⟨⟨_, weight⟩, hterm, rfl⟩
    obtain ⟨hunknown, before, after, rfl, hbefore⟩ := List.find?_eq_some_iff_append.mp hterm
    exact ⟨before, weight, after, rfl, by simpa using hunknown, by simpa using hbefore⟩
  · rintro ⟨before, weight, after, rfl, hunknown, hbefore⟩
    refine ⟨(id, weight), List.find?_eq_some_iff_append.mpr ⟨?_, before, after, rfl, ?_⟩, rfl⟩
    · simpa using hunknown
    · simpa using hbefore

/-- The first unknown variable of two sums is that of the first one, if it has one. -/
lemma firstUnknown?_append (terms more : Terms α) (count : ℕ) :
    firstUnknown? (terms ++ more) count =
      (terms.firstUnknown? count).or (more.firstUnknown? count) := by
  rw [firstUnknown?, List.map_append, List.find?_append]
  rfl

end Terms

variable [Scalar α] {map : ColumnMap α} {terms : Terms α} {id : VariableId}

/-- A sum ends at its first unknown variable. -/
lemma ColumnMap.expand_of_firstUnknown
    (h : terms.firstUnknown? map.substitutions.length = some id) (sign : α)
    (combine : α → α → α) (start : Coords α × α) :
    map.expand sign combine terms start = .error (.unknownVariable id.index) := by
  obtain ⟨before, weight, after, rfl, hunknown, hbefore⟩ := Terms.firstUnknown?_eq_some.mp h
  obtain ⟨row, hrow, -⟩ := exists_expand_size hbefore sign combine start
  have hfind : map.find id = .error (.unknownVariable id.index) := by
    rw [find, substitution?, List.getElem?_eq_none hunknown]
  rw [expand] at hrow ⊢
  rw [List.foldlM_append, hrow]
  simp [hfind, bind, Except.bind]

namespace StandardForm

/-- The rows of a constraint report the first unknown variable of its sum. -/
lemma constraintRows_of_firstUnknown {c : Constraint α}
    (h : c.terms.firstUnknown? map.substitutions.length = some id) :
    constraintRows map c = .error (.unknownVariable id.index) := by
  obtain ⟨sign, signs, hsigns⟩ : ∃ (sign : α) (signs : List α),
      c.relation.signs = sign :: signs := by
    cases c.relation <;> exact ⟨_, _, rfl⟩
  rw [constraintRows, hsigns, List.mapM_cons, map.expand_of_firstUnknown h]
  rfl

/-- The rows of constraints report the first unknown variable of all their sums. -/
lemma mapM_constraintRows_of_firstUnknown {constraints : List (Constraint α)}
    (h : Terms.firstUnknown? (constraints.flatMap Constraint.terms) map.substitutions.length =
      some id) :
    constraints.mapM (constraintRows map) = .error (.unknownVariable id.index) := by
  induction constraints with
  | nil => cases h
  | cons c constraints ih =>
      rw [List.flatMap_cons, Terms.firstUnknown?_append] at h
      rw [List.mapM_cons]
      cases hc : c.terms.firstUnknown? map.substitutions.length with
      | some id' =>
          rw [hc, Option.some_or] at h
          obtain rfl := Option.some.inj h
          rw [constraintRows_of_firstUnknown hc]
          rfl
      | none =>
          rw [hc, Option.none_or] at h
          obtain ⟨rows, hrows, -⟩ :=
            exists_constraintRows_length (Terms.firstUnknown?_eq_none.mp hc)
          rw [hrows, ih h]
          rfl

/-! ### Models -/

omit [Scalar α] in
/-- The sums of a model as one: those of the constraints in order, and then the objective. -/
def modelTerms (constraints : List (Constraint α)) (objective : Objective α) : Terms α :=
  constraints.flatMap Constraint.terms ++ objective.terms

variable {vars : List (Variable α)} {constraints : List (Constraint α)} {objective : Objective α}
  {objective? : Option (Objective α)}

lemma ofModel_none : ofModel vars constraints none = .error .missingObjective := rfl

/-- A model with an objective has a canonical form where its sums have no unknown variable. -/
lemma exists_ofModel_of_firstUnknown
    (h : (modelTerms constraints objective).firstUnknown? vars.length = none) :
    ∃ built, ofModel vars constraints (some objective) = .ok built := by
  have hknown := List.forall_mem_append.mp (Terms.firstUnknown?_eq_none.mp h)
  obtain ⟨form, hform, -⟩ := exists_ofModel_size
    (fun c hc term hterm => hknown.1 term (List.mem_flatMap.mpr ⟨c, hc, hterm⟩)) hknown.2
  exact ⟨_, hform⟩

/-- Elsewhere their first unknown variable is reported. -/
lemma ofModel_of_firstUnknown
    (h : (modelTerms constraints objective).firstUnknown? vars.length = some id) :
    ofModel vars constraints (some objective) = .error (.unknownVariable id.index) := by
  have hlength : (ColumnMap.ofVariables vars).substitutions.length = vars.length :=
    ColumnMap.length_fst_allot vars 0
  rw [modelTerms, Terms.firstUnknown?_append, ← hlength] at h
  cases hc : Terms.firstUnknown? (constraints.flatMap Constraint.terms)
      (ColumnMap.ofVariables vars).substitutions.length with
  | some id' =>
      rw [hc, Option.some_or] at h
      obtain rfl := Option.some.inj h
      simp only [ofModel, mapM_constraintRows_of_firstUnknown hc]
      rfl
  | none =>
      rw [hc, Option.none_or] at h
      have hknown := Terms.firstUnknown?_eq_none.mp hc
      obtain ⟨rows, hrows, -⟩ := exists_mapM_constraintRows_length fun c hmem term hterm =>
        hknown term (List.mem_flatMap.mpr ⟨c, hmem, hterm⟩)
      simp only [ofModel, hrows, ColumnMap.expand_of_firstUnknown h]
      rfl

/-- There are two defects: the objective is missing, whatever the sums are; or it is there, and a
variable is unknown, the first such one in the order in which the sums are read. -/
theorem ofModel_eq_error_iff {error : ModelError α} :
    ofModel vars constraints objective? = .error error ↔
      (objective? = none ∧ error = .missingObjective) ∨
      ∃ objective id, objective? = some objective ∧
        (modelTerms constraints objective).FirstUnknown vars.length id ∧
        error = .unknownVariable id.index := by
  cases objective? with
  | none => simp [ofModel_none, eq_comm]
  | some objective =>
      simp only [reduceCtorEq, false_and, false_or, Option.some.injEq, exists_and_left,
        exists_eq_left', ← Terms.firstUnknown?_eq_some]
      cases h : (modelTerms constraints objective).firstUnknown? vars.length with
      | none =>
          obtain ⟨built, hbuilt⟩ := exists_ofModel_of_firstUnknown h
          simp [hbuilt]
      | some id => simp [ofModel_of_firstUnknown h, eq_comm]

/-- A model has a canonical form where its objective is given and all variables are known. -/
theorem exists_ofModel_iff :
    (∃ built, ofModel vars constraints objective? = .ok built) ↔
      ∃ objective, objective? = some objective ∧
        ∀ term ∈ modelTerms constraints objective, term.1.index < vars.length := by
  cases objective? with
  | none => simp [ofModel_none]
  | some objective =>
      simp only [Option.some.injEq, exists_eq_left', ← Terms.firstUnknown?_eq_none]
      cases h : (modelTerms constraints objective).firstUnknown? vars.length with
      | none => simpa using exists_ofModel_of_firstUnknown h
      | some id => simp [ofModel_of_firstUnknown h]

end StandardForm

end LinProg
