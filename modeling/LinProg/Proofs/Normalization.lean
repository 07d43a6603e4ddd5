import LinProg.Proofs.Double
import LinProg.Proofs.Session

/-!
Writing a model in normal form by hand changes nothing, in any arithmetic in which minus one times a
number is one times its negation.

* `Constraint.normalized`, `Objective.maximized`: a constraint as one or two constraints `≤`, and an
  objective as one to be maximized.
* `Normalizes`: any of the constraints of a list are written so, each in its place.
* `ofModel_normalized`: the canonical form and the map of its columns stay the same, cell by cell.
* `Program.Normalizes`, `Program.Normalizes.replies_alike`: so do the replies to all queries, where
  the optimal value changes its sign with the goal. Doubles are such an arithmetic.
-/

namespace LinProg

variable {α : Type} [Scalar α]

/-! ### The normal form -/

/-- The sum with all weights negated. -/
def Terms.negated (terms : Terms α) : Terms α := terms.map fun (id, weight) => (id, -weight)

/-- The constraint as one or two constraints `≤`. -/
def Constraint.normalized (c : Constraint α) : List (Constraint α) :=
  match c.relation with
  | .le => [c]
  | .ge => [⟨c.terms.negated, .le, -c.rhs⟩]
  | .eq => [⟨c.terms, .le, c.rhs⟩, ⟨c.terms.negated, .le, -c.rhs⟩]

/-- The objective as one to be maximized. -/
def Objective.maximized (o : Objective α) : Objective α :=
  match o.goal with
  | .maximize => o
  | .minimize => ⟨.maximize, o.terms.negated⟩

/-- Any of the constraints of the first list are written in normal form, each in its place. -/
inductive Normalizes : List (Constraint α) → List (Constraint α) → Prop where
  | nil : Normalizes [] []
  | keep (c : Constraint α) {cs cs' : List (Constraint α)} (h : Normalizes cs cs') :
      Normalizes (c :: cs) (c :: cs')
  | write (c : Constraint α) {cs cs' : List (Constraint α)} (h : Normalizes cs cs') :
      Normalizes (c :: cs) (c.normalized ++ cs')

/-! ### The canonical form -/

section CanonicalForm

variable (hsign : ∀ w : α, -1 * w = 1 * -w) (map : ColumnMap α)

include hsign in
/-- A sum with the sign minus one is the negated sum with the sign one. -/
lemma ColumnMap.expand_negated (combine : α → α → α) (terms : Terms α) (start : Coords α × α) :
    map.expand (-1) combine terms start = map.expand 1 combine terms.negated start := by
  rw [expand, expand, Terms.negated, List.foldlM_map]
  simp only [hsign]

namespace StandardForm

/-- The rows of some constraints, one after another. -/
def rowsOf (cs : List (Constraint α)) : Except (ModelError α) (List (Coords α × α)) :=
  List.flatten <$> cs.mapM (constraintRows map)

lemma rowsOf_append (cs cs' : List (Constraint α)) :
    rowsOf map (cs ++ cs') = do return (← rowsOf map cs) ++ (← rowsOf map cs') := by
  simp [rowsOf, List.mapM_append, List.flatten_append]

lemma rowsOf_singleton (c : Constraint α) : rowsOf map [c] = constraintRows map c := by
  simp [rowsOf]

include hsign in
/-- A constraint in normal form has the rows that it had before. -/
lemma rowsOf_normalized (c : Constraint α) : rowsOf map c.normalized = constraintRows map c := by
  obtain ⟨terms, _ | _ | _, rhs⟩ := c
  · exact rowsOf_singleton map _
  · rw [Constraint.normalized, rowsOf_singleton]
    simp [constraintRows, Relation.signs, ColumnMap.expand_negated hsign, hsign]
  · have hboth : Constraint.normalized ⟨terms, .eq, rhs⟩ =
        [⟨terms, .le, rhs⟩] ++ [⟨terms.negated, .le, -rhs⟩] := rfl
    rw [hboth, rowsOf_append, rowsOf_singleton, rowsOf_singleton]
    simp [constraintRows, Relation.signs, ColumnMap.expand_negated hsign, hsign]

include hsign in
/-- Constraints of which some are put in normal form have the rows that they had before. -/
lemma rowsOf_eq_of_normalizes {cs cs' : List (Constraint α)} (h : Normalizes cs cs') :
    rowsOf map cs' = rowsOf map cs := by
  induction h with
  | nil => rfl
  | keep c h ih =>
      rw [← List.singleton_append, rowsOf_append, ih, ← rowsOf_append, List.singleton_append]
  | write c h ih =>
      rw [rowsOf_append, rowsOf_normalized hsign, ih, ← rowsOf_singleton, ← rowsOf_append,
        List.singleton_append]

/-- The canonical form of a model with an objective, by the rows of its constraints together. -/
lemma ofModel_eq (vars : List (Variable α)) (cs : List (Constraint α)) (o : Objective α) :
    ofModel vars cs (some o) = do
      let map := ColumnMap.ofVariables vars
      let rows ← rowsOf map cs
      let (costs, constant) ← map.expand o.goal.sign (· + ·) o.terms (Coords.zeros map.numColumns, 0)
      return (ofRows (boundRows vars map ++ rows) costs constant, map) := by
  simp [ofModel, rowsOf]

include hsign in
/-- An objective that is written as one to be maximized has the costs and the constant that it had
before. -/
lemma ofModel_maximized (vars : List (Variable α)) (cs : List (Constraint α)) (o : Objective α) :
    ofModel vars cs (some o.maximized) = ofModel vars cs (some o) := by
  obtain ⟨_ | _, terms⟩ := o
  · rfl
  · rw [ofModel_eq, ofModel_eq]
    simp only [Objective.maximized, Goal.sign, ColumnMap.expand_negated hsign]

include hsign in
/-- Writing constraints in normal form, and the objective as one to be maximized, gives the same
canonical form and the same map of its columns. -/
theorem ofModel_normalized (vars : List (Variable α)) {cs cs' : List (Constraint α)}
    (h : Normalizes cs cs') {objective? objective?' : Option (Objective α)}
    (hobjective : objective?' = objective? ∨ objective?' = objective?.map Objective.maximized) :
    ofModel vars cs' objective?' = ofModel vars cs objective? := by
  have hrows : ofModel vars cs' objective? = ofModel vars cs objective? := by
    cases objective? with
    | none => rfl
    | some o => simp only [ofModel_eq, rowsOf_eq_of_normalizes hsign _ h]
  obtain rfl | rfl := hobjective
  · exact hrows
  · cases objective? with
    | none => exact hrows
    | some o => rw [Option.map_some, ofModel_maximized hsign, hrows]

end StandardForm

end CanonicalForm

/-! ### Programs -/

namespace Program

variable {p p' : Program α}

/-- The second program has the variables and the solver of the first one, and its model is that of
the first one with any of the constraints, and maybe the objective, written in normal form. -/
structure Normalizes (p p' : Program α) : Prop where
  vars_eq : p'.vars = p.vars
  solver_eq : p'.solver = p.solver
  constraints : LinProg.Normalizes p.constraints p'.constraints
  objective : p'.objective = p.objective ∨ p'.objective = p.objective.map Objective.maximized

/-- The optimal value is read off the solution of the model, in the direction of its goal. -/
lemma replyOf_objectiveValue (p : Program α) :
    replyOf p.objectiveValue = (replyOf p.solvedModel).map (Except.map fun solved =>
      match solved.solution.status with
      | .infeasible => none
      | _ => some (p.oriented solved.solution.objective)) := by
  rw [objectiveValue, ask, replyOf, read_reply]
  change Except.bind (replyOf p.solvedModel) _ = _
  cases replyOf p.solvedModel with
  | error fault => rfl
  | ok reply => cases reply <;> rfl

/-- The reply with the optimal value negated, where it gives one. -/
def negatedReply (reply : Except Fault (Except (ModelError α) (Option (Extended α)))) :
    Except Fault (Except (ModelError α) (Option (Extended α))) :=
  reply.map (Except.map (Option.map Extended.neg))

/-- Two negations of a reply cancel where those of numbers do. -/
lemma negatedReply_negatedReply (hneg : ∀ x : α, - -x = x)
    (reply : Except Fault (Except (ModelError α) (Option (Extended α)))) :
    negatedReply (negatedReply reply) = reply := by
  rcases reply with fault | error | _ | _ | x | _
  case ok.ok.some.value => simp [negatedReply, Except.map, Extended.neg, hneg]
  all_goals rfl

namespace Normalizes

variable (hsign : ∀ w : α, -1 * w = 1 * -w)

include hsign in
/-- Both models have the same canonical form, with the same map of its columns. -/
lemma ofModel_eq (h : p.Normalizes p') :
    StandardForm.ofModel p'.vars p'.constraints p'.objective =
      StandardForm.ofModel p.vars p.constraints p.objective := by
  rw [h.vars_eq]
  exact StandardForm.ofModel_normalized hsign p.vars h.constraints h.objective

include hsign in
/-- Both models have the same solution, known or not. -/
lemma replyOf_solvedModel (h : p.Normalizes p') (hp : p.Current) (hp' : p'.Current) :
    replyOf p'.solvedModel = replyOf p.solvedModel := by
  have hunsolved : replyOf p'.unsolved.solvedModel = replyOf p.unsolved.solvedModel := by
    rw [replyOf, replyOf, solvedModel_of_unsolved (p := p'.unsolved) rfl,
      solvedModel_of_unsolved (p := p.unsolved) rfl]
    simp only [unsolved, h.ofModel_eq hsign, h.solver_eq]
    cases StandardForm.ofModel p.vars p.constraints p.objective with
    | error error => rfl
    | ok built =>
        simp only
        cases (p.solver.solve built.1).result <;> rfl
  calc replyOf p'.solvedModel
      = replyOf p'.unsolved.solvedModel := (isQuery_solvedModel p').answers_alike hp'
    _ = replyOf p.unsolved.solvedModel := hunsolved
    _ = replyOf p.solvedModel := ((isQuery_solvedModel p).answers_alike hp).symm

include hsign in
/-- Whatever is read off the solution is the same for both. -/
lemma replyOf_ask (h : p.Normalizes p') (hp : p.Current) (hp' : p'.Current) {β : Type}
    (answer : Solved α → Except Fault β) : replyOf (p'.ask answer) = replyOf (p.ask answer) := by
  rw [ask, ask]
  exact replyOf_read (h.replyOf_solvedModel hsign hp hp') answer

/-- The goal is the same, unless an objective to be minimized is written as one to be maximized. -/
lemma goal_cases (h : p.Normalizes p') :
    p'.objective.map Objective.goal = p.objective.map Objective.goal ∨
      p.objective.map Objective.goal = some .minimize ∧
        p'.objective.map Objective.goal = some .maximize := by
  obtain hsame | hmaximized := h.objective
  · exact .inl (by rw [hsame])
  · rw [hmaximized]
    rcases p.objective with _ | ⟨_ | _, terms⟩
    · exact .inl rfl
    · exact .inl rfl
    · exact .inr ⟨rfl, rfl⟩

include hsign in
/-- Where the goal is the same, so is the optimal value. -/
lemma replyOf_objectiveValue_eq (h : p.Normalizes p') (hp : p.Current) (hp' : p'.Current)
    (hgoal : p'.objective.map Objective.goal = p.objective.map Objective.goal) :
    replyOf p'.objectiveValue = replyOf p.objectiveValue := by
  have horiented : p'.oriented = p.oriented := by
    funext x
    rw [oriented, oriented, hgoal]
  rw [replyOf_objectiveValue, replyOf_objectiveValue, h.replyOf_solvedModel hsign hp hp',
    horiented]

include hsign in
/-- Where it is not, the optimal value has the other sign. -/
lemma replyOf_objectiveValue_eq_negated (h : p.Normalizes p') (hp : p.Current) (hp' : p'.Current)
    (hgoal : p'.objective.map Objective.goal ≠ p.objective.map Objective.goal) :
    replyOf p.objectiveValue = negatedReply (replyOf p'.objectiveValue) := by
  obtain hsame | ⟨hminimize, hmaximize⟩ := h.goal_cases
  · exact absurd hsame hgoal
  · rw [replyOf_objectiveValue, replyOf_objectiveValue, h.replyOf_solvedModel hsign hp hp']
    simp only [oriented, hminimize, hmaximize]
    rcases replyOf p.solvedModel with fault | error | solved
    · rfl
    · rfl
    · rcases hstatus : solved.solution.status <;> simp [negatedReply, Except.map, hstatus]

include hsign in
/-- A model with any of its constraints, and maybe its objective, written in normal form has the
same canonical form with the same map of its columns, and hence the same solution, pivots counted,
and the same values of its variables. So it has the same optimal value, but with the other sign
where an objective to be minimized is written as one to be maximized. -/
theorem replies_alike (h : p.Normalizes p') (hp : p.Current) (hp' : p'.Current) :
    StandardForm.ofModel p'.vars p'.constraints p'.objective =
        StandardForm.ofModel p.vars p.constraints p.objective ∧
      (replyOf p'.solve = replyOf p.solve ∧
        replyOf p'.status = replyOf p.status ∧
        (∀ id, replyOf (p'.value id) = replyOf (p.value id)) ∧
        replyOf p'.values = replyOf p.values) ∧
      (p'.objective.map Objective.goal = p.objective.map Objective.goal →
        replyOf p'.objectiveValue = replyOf p.objectiveValue) ∧
      (p'.objective.map Objective.goal ≠ p.objective.map Objective.goal →
        replyOf p.objectiveValue = negatedReply (replyOf p'.objectiveValue) ∧
        ((∀ x : α, - -x = x) →
          replyOf p'.objectiveValue = negatedReply (replyOf p.objectiveValue))) := by
  have hask := @h.replyOf_ask _ _ _ _ hsign hp hp'
  refine ⟨h.ofModel_eq hsign, ⟨hask _, hask _, fun id => ?_, hask _⟩,
    h.replyOf_objectiveValue_eq hsign hp hp', fun hgoal => ?_⟩
  · rw [value, value, h.vars_eq]
    split
    · rfl
    · exact hask _
  · have hnegated := h.replyOf_objectiveValue_eq_negated hsign hp hp' hgoal
    refine ⟨hnegated, fun hneg => ?_⟩
    rw [hnegated, negatedReply_negatedReply hneg]

/-- Two numbers, the second one of any sign, whose sum is at least two and whose difference is one:
the sum of the first one and twice the second one is to be minimized. -/
def balanced : Program Float where
  vars := [.nonnegative "x", .free "y"]
  constraints := [⟨[(⟨0⟩, 1), (⟨1⟩, 1)], .ge, 2⟩, ⟨[(⟨0⟩, 1), (⟨1⟩, -1)], .eq, 1⟩]
  objective := some ⟨.minimize, [(⟨0⟩, 1), (⟨1⟩, 2)]⟩
  solver := ⟨1e-9⟩
  solved := none

/-- The balanced model in normal form. -/
def balancedNormal : Program Float where
  vars := [.nonnegative "x", .free "y"]
  constraints := [⟨[(⟨0⟩, -1), (⟨1⟩, -1)], .le, -2⟩, ⟨[(⟨0⟩, 1), (⟨1⟩, -1)], .le, 1⟩,
    ⟨[(⟨0⟩, -1), (⟨1⟩, 1)], .le, -1⟩]
  objective := some ⟨.maximize, [(⟨0⟩, -1), (⟨1⟩, -2)]⟩
  solver := ⟨1e-9⟩
  solved := none

lemma normalizes_balanced : balanced.Normalizes balancedNormal where
  vars_eq := rfl
  solver_eq := rfl
  constraints := by
    have hrows : balancedNormal.constraints =
        Constraint.normalized ⟨[(⟨0⟩, 1), (⟨1⟩, 1)], .ge, 2⟩ ++
          (Constraint.normalized ⟨[(⟨0⟩, 1), (⟨1⟩, -1)], .eq, 1⟩ ++ []) := by
      decide +kernel
    rw [hrows]
    exact .write _ (.write _ .nil)
  objective := .inr (by decide +kernel)

/-- Both models have the same optimal point, found with five pivots, and the optimal values are two
and a half and its negation. -/
theorem replies_alike_balanced :
    balanced.Normalizes balancedNormal ∧ balanced.Current ∧ balancedNormal.Current ∧
      (replyOf balanced.solve = .ok (.ok (.feasible #[1.5, 0.5, 0] (-2.5) 5)) ∧
        replyOf balancedNormal.solve = .ok (.ok (.feasible #[1.5, 0.5, 0] (-2.5) 5))) ∧
      replyOf balanced.objectiveValue = .ok (.ok (some (.value 2.5))) ∧
      replyOf balancedNormal.objectiveValue = .ok (.ok (some (.value (-2.5)))) := by
  have hcurrent : balanced.Current := current_of_solved_eq_none rfl
  have hcurrent' : balancedNormal.Current := current_of_solved_eq_none rfl
  have hsolve : replyOf balanced.solve = .ok (.ok (.feasible #[1.5, 0.5, 0] (-2.5) 5)) := by
    decide +kernel
  have hvalue : replyOf balanced.objectiveValue = .ok (.ok (some (.value 2.5))) := by
    decide +kernel
  obtain ⟨-, ⟨hsolution, -⟩, -, hchanged⟩ :=
    replies_alike Double.neg_one_mul normalizes_balanced hcurrent hcurrent'
  have hnegated := (hchanged (by decide)).2 Double.neg_neg
  rw [hvalue] at hnegated
  exact ⟨normalizes_balanced, hcurrent, hcurrent', ⟨hsolve, hsolution.trans hsolve⟩, hvalue,
    hnegated⟩

end Normalizes

end Program

end LinProg
