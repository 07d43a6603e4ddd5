import LinProg.Proofs.Traced
import LinProg.Program

/-!
Operations on a program, and what sets the queries among them apart, whatever the arithmetic does.

* `Program.register_cases`, `addConstraint_cases`, `setObjective_cases`: what the changes that can
  be refused give and what they leave.
* `Program.Current`: a known solution is the one that the solver gives for the model as it is now.
* `Program.IsQuery`: a query changes nothing but the known solution, keeps that current, and replies
  as if there were none. `isQuery_solvedModel` says so of the solution of the model, `IsQuery.read`
  of whatever is read off it, and `isQuery_perform` of every operation that is not a change.
* `Program.replyOf`: what a query replies, whatever program it leaves.
-/

namespace LinProg

variable {α : Type} [Scalar α] {β γ : Type}

/-! ### Replies -/

namespace Reply

omit [Scalar α]

variable {p : Program α} {reply : Reply α β}

/-- The form of an answer has no bearing on errors and on the program that is left. -/
lemma map_eq_iff {form : β → γ} {reply' : Except (ModelError α) γ} :
    reply.map form = (reply', p) ↔ ∃ answer, reply = (answer, p) ∧ reply' = answer.map form := by
  obtain ⟨answer, q⟩ := reply
  simp [map, and_comm, eq_comm]

/-- A program is accepted together with an answer. -/
lemma accepted_eq_ok : reply.accepted = .ok p ↔ ∃ answer, reply = (.ok answer, p) := by
  obtain ⟨answer, q⟩ := reply
  cases answer <;> simp [accepted, Except.map]

end Reply

namespace Program

variable {p p' : Program α} {op : Operation α}

/-! ### Changes -/

/-- The variable with a name and bounds is added where the bounds are valid. -/
lemma register_of_valid {name : String} {lower upper : Option α}
    (h : Variable.boundsValid lower upper = true) :
    p.register name lower upper =
      (.ok ⟨p.vars.length⟩, (p.addVariable ⟨name, lower, upper⟩).2) := by
  rw [register, Variable.ofBounds, if_pos h]
  rfl

/-- A variable is added where its bounds are valid. Elsewhere there is an error, and the program
stays as it was. -/
lemma register_cases {name : String} {lower upper : Option α}
    {reply : Except (ModelError α) VariableId} (h : p.register name lower upper = (reply, p')) :
    (Variable.boundsValid lower upper = true ∧ reply = .ok ⟨p.vars.length⟩ ∧
      p' = (p.addVariable ⟨name, lower, upper⟩).2) ∨
      (∃ error, reply = .error error) ∧ p' = p := by
  by_cases hvalid : Variable.boundsValid lower upper = true
  · rw [register_of_valid hvalid] at h
    obtain ⟨rfl, rfl⟩ := Prod.mk.inj h
    exact .inl ⟨hvalid, rfl, rfl⟩
  · rw [register, Variable.ofBounds, if_neg hvalid] at h
    obtain ⟨rfl, rfl⟩ := Prod.mk.inj h
    exact .inr ⟨⟨_, rfl⟩, rfl⟩

section Sums

omit [Scalar α]

variable {terms : Terms α} {c : Constraint α} {objective : Objective α}
  {reply : Except (ModelError α) Unit}

/-- A sum that a program does not refuse names its own variables only. -/
lemma checkKnown_eq_ok_iff :
    p.checkKnown terms = .ok () ↔ ∀ term ∈ terms, term.1.index < p.vars.length := by
  rw [← Terms.firstUnknown?_eq_none, checkKnown]
  cases terms.firstUnknown? p.vars.length <;> simp

/-- A constraint on variables of the program is added. -/
lemma addConstraint_of_known (h : p.checkKnown c.terms = .ok ()) :
    p.addConstraint c =
      (.ok (), { p with constraints := p.constraints ++ [c], solved := none }) := by
  rw [addConstraint, h]
  rfl

/-- With any other one there is an error, and the program stays as it was. -/
lemma addConstraint_cases (h : p.addConstraint c = (reply, p')) :
    (p.checkKnown c.terms = .ok () ∧ reply = .ok () ∧
      p' = { p with constraints := p.constraints ++ [c], solved := none }) ∨
      (∃ error, reply = .error error) ∧ p' = p := by
  cases hknown : p.checkKnown c.terms with
  | ok _ =>
      rw [addConstraint_of_known hknown] at h
      obtain ⟨rfl, rfl⟩ := Prod.mk.inj h
      exact .inl ⟨rfl, rfl, rfl⟩
  | error error =>
      rw [addConstraint, hknown] at h
      obtain ⟨rfl, rfl⟩ := Prod.mk.inj h
      exact .inr ⟨⟨error, rfl⟩, rfl⟩

/-- An objective over variables of the program is set. -/
lemma setObjective_of_known (h : p.checkKnown objective.terms = .ok ()) :
    p.setObjective objective =
      (.ok (), { p with objective := some objective, solved := none }) := by
  rw [setObjective, h]
  rfl

/-- With any other one there is an error, and the program stays as it was. -/
lemma setObjective_cases (h : p.setObjective objective = (reply, p')) :
    (p.checkKnown objective.terms = .ok () ∧ reply = .ok () ∧
      p' = { p with objective := some objective, solved := none }) ∨
      (∃ error, reply = .error error) ∧ p' = p := by
  cases hknown : p.checkKnown objective.terms with
  | ok _ =>
      rw [setObjective_of_known hknown] at h
      obtain ⟨rfl, rfl⟩ := Prod.mk.inj h
      exact .inl ⟨rfl, rfl, rfl⟩
  | error error =>
      rw [setObjective, hknown] at h
      obtain ⟨rfl, rfl⟩ := Prod.mk.inj h
      exact .inr ⟨⟨error, rfl⟩, rfl⟩

end Sums

/-! ### Known solutions -/

/-- A known solution is the one that the solver gives for the canonical form of the model, with the
map of its columns. -/
def Current (p : Program α) : Prop :=
  ∀ solved, p.solved = some solved → ∃ form,
    StandardForm.ofModel p.vars p.constraints p.objective = .ok (form, solved.columns) ∧
      (p.solver.solve form).result = .ok solved.solution

omit [Scalar α] in
lemma unsolved_eq_self (h : p.solved = none) : p.unsolved = p := by
  cases p
  cases h
  rfl

lemma current_of_solved_eq_none (h : p.solved = none) : p.Current := by
  intro solved hsolved
  rw [h] at hsolved
  cases hsolved

lemma build_result (p : Program α) :
    p.build.result = .ok (StandardForm.ofModel p.vars p.constraints p.objective) := by
  rw [build, buildModel]
  cases StandardForm.ofModel p.vars p.constraints p.objective <;> rfl

/-- A known solution is given again, and put back. -/
lemma solvedModel_of_solved {solved : Solved α} (h : p.solved = some solved) :
    p.solvedModel.result = .ok (.ok solved, p) := by
  have hback : { p.unsolved with solved := some solved } = p := by
    rw [← h]
    rfl
  rw [solvedModel, h]
  exact congrArg (fun q => Except.ok (Except.ok solved, q)) hback

/-- Otherwise the model is brought into canonical form and solved. -/
lemma solvedModel_of_unsolved (h : p.solved = none) :
    p.solvedModel.result =
      match StandardForm.ofModel p.vars p.constraints p.objective with
      | .error error => .ok (.error error, p)
      | .ok (form, columns) => (p.solver.solve form).result.map fun solution =>
          (.ok ⟨solution, columns⟩, { p with solved := some ⟨solution, columns⟩ }) := by
  rw [solvedModel, h, unsolved_eq_self h]
  simp only [Traced.result_bind, build_result, Except.bind]
  cases StandardForm.ofModel p.vars p.constraints p.objective with
  | error error => rfl
  | ok built =>
      simp only [Traced.result_bind]
      cases (p.solver.solve built.1).result <;> rfl

section Solving

variable {form : StandardForm α} {map : ColumnMap α} {s : Solution α} {solved : Solved α}

lemma build_result_eq
    (h : StandardForm.ofModel p.vars p.constraints p.objective = .ok (form, map)) :
    p.build.result = .ok (.ok (form, map)) := by
  rw [build_result, h]

/-- Where no solution is known, the canonical form is built and solved. -/
lemma solvedModel_result_eq (hsolved : p.solved = none)
    (hbuild : p.build.result = .ok (.ok (form, map)))
    (hsolve : (p.solver.solve form).result = .ok s) :
    p.solvedModel.result = .ok (.ok ⟨s, map⟩, { p with solved := some ⟨s, map⟩ }) := by
  simp [solvedModel, hsolved, unsolved_eq_self hsolved, hbuild, hsolve, Except.bind]

/-- A query reads its answer off the solution. -/
lemma ask_result_eq {answer : Solved α → Except Fault β} {b : β}
    (hsolved : p.solvedModel.result = .ok (.ok solved, p')) (hanswer : answer solved = .ok b) :
    (p.ask answer).result = .ok (.ok b, p') := by
  simp [ask, read, hsolved, hanswer, Except.bind]

/-- Where the engine breaks off, so does every query. -/
lemma ask_result_of_fault (hsolved : p.solved = none)
    (hbuild : p.build.result = .ok (.ok (form, map))) {fault : Fault}
    (hsolve : (p.solver.solve form).result = .error fault) (answer : Solved α → Except Fault β) :
    (p.ask answer).result = .error fault := by
  simp [ask, read, solvedModel, hsolved, unsolved_eq_self hsolved, hbuild, hsolve, Except.bind]

end Solving

/-! ### Queries -/

/-- What a query of a program gives: the program with nothing changed but the known solution, which
stays current; with an error the program as it was; and the reply `x'` that is given where no
solution is known. -/
structure IsQuery (p : Program α) (x x' : Traced α (Reply α β)) : Prop where
  same_model : ∀ {reply p'}, x.result = .ok (reply, p') → p' = { p with solved := p'.solved }
  keeps_current : p.Current → ∀ {reply p'}, x.result = .ok (reply, p') → p'.Current
  of_error : ∀ {error p'}, x.result = .ok (.error error, p') → p' = p
  answers_alike : p.Current → x.result.map Prod.fst = x'.result.map Prod.fst

/-- What asking for the solution of the model can do. -/
lemma solvedModel_cases {reply : Except (ModelError α) (Solved α)}
    (h : p.solvedModel.result = .ok (reply, p')) :
    p' = p ∨ ∃ form solved,
      StandardForm.ofModel p.vars p.constraints p.objective = .ok (form, solved.columns) ∧
      (p.solver.solve form).result = .ok solved.solution ∧ reply = .ok solved ∧
      p' = { p with solved := some solved } := by
  cases hsolved : p.solved with
  | some solved =>
      rw [solvedModel_of_solved hsolved] at h
      exact .inl (Prod.mk.inj (Except.ok.inj h)).2.symm
  | none =>
      rw [solvedModel_of_unsolved hsolved] at h
      cases hform : StandardForm.ofModel p.vars p.constraints p.objective with
      | error error =>
          rw [hform] at h
          exact .inl (Prod.mk.inj (Except.ok.inj h)).2.symm
      | ok built =>
          obtain ⟨form, columns⟩ := built
          simp only [hform] at h
          cases hsolve : (p.solver.solve form).result with
          | error fault =>
              rw [hsolve] at h
              cases h
          | ok solution =>
              rw [hsolve] at h
              obtain ⟨rfl, rfl⟩ := Prod.mk.inj (Except.ok.inj h)
              exact .inr ⟨form, ⟨solution, columns⟩, rfl, hsolve, rfl, rfl⟩

/-- Asking for the solution of the model is a query. -/
theorem isQuery_solvedModel (p : Program α) :
    IsQuery p p.solvedModel p.unsolved.solvedModel where
  same_model h := by
    obtain rfl | ⟨form, solved, -, -, -, rfl⟩ := solvedModel_cases h
    · rfl
    · rfl
  keeps_current hcurrent _ _ h := by
    obtain rfl | ⟨form, solved, hform, hsolve, -, rfl⟩ := solvedModel_cases h
    · exact hcurrent
    · intro solved' hsolved'
      obtain rfl := Option.some.inj hsolved'
      exact ⟨form, hform, hsolve⟩
  of_error h := by
    obtain rfl | ⟨form, solved, -, -, herror, -⟩ := solvedModel_cases h
    · rfl
    · cases herror
  answers_alike hcurrent := by
    cases hsolved : p.solved with
    | none => rw [unsolved_eq_self hsolved]
    | some solved =>
        -- without the known solution the solver is run again, and gives it again
        obtain ⟨form, hform, hsolve⟩ := hcurrent solved hsolved
        rw [solvedModel_of_solved hsolved, solvedModel_of_unsolved (p := p.unsolved) rfl]
        simp only [unsolved, hform, hsolve, Except.map]

/-- A reply that comes with the program as it was, and is the same without a known solution. -/
lemma isQuery_of_result_eq {x x' : Traced α (Reply α β)} {reply : Except (ModelError α) β}
    (h : x.result = .ok (reply, p)) (h' : x'.result = .ok (reply, p')) : IsQuery p x x' where
  same_model hx := by
    rw [h] at hx
    obtain ⟨-, rfl⟩ := Prod.mk.inj (Except.ok.inj hx)
    rfl
  keeps_current hcurrent _ _ hx := by
    rw [h] at hx
    obtain ⟨-, rfl⟩ := Prod.mk.inj (Except.ok.inj hx)
    exact hcurrent
  of_error hx := by
    rw [h] at hx
    exact (Prod.mk.inj (Except.ok.inj hx)).2.symm
  answers_alike _ := by
    rw [h, h']
    rfl

section Read

variable {x x' : Traced α (Reply α β)} {answer : β → Except Fault γ}

omit [Scalar α] in
/-- What is read off a reply comes with the program that the reply came with. -/
lemma read_cases {reply : Except (ModelError α) γ}
    (h : (read x answer).result = .ok (reply, p)) :
    ∃ reply', x.result = .ok (reply', p) ∧
      ∀ error, reply = .error error → reply' = .error error := by
  obtain ⟨⟨reply', q⟩, hx, h⟩ := Traced.result_bind_eq_ok.mp h
  cases reply' with
  | error error =>
      obtain ⟨rfl, rfl⟩ := Prod.mk.inj (Except.ok.inj h)
      exact ⟨.error error, hx, fun _ h => congrArg _ (Except.error.inj h)⟩
  | ok b =>
      obtain ⟨c, -, h⟩ := Traced.result_bind_eq_ok.mp h
      obtain ⟨rfl, rfl⟩ := Prod.mk.inj (Except.ok.inj h)
      exact ⟨.ok b, hx, fun _ h => by cases h⟩

omit [Scalar α] in
/-- What is read depends on the reply alone. -/
lemma read_reply (x : Traced α (Reply α β)) (answer : β → Except Fault γ) :
    (read x answer).result.map Prod.fst =
      (x.result.map Prod.fst).bind fun reply =>
        match reply with
        | .error error => .ok (.error error)
        | .ok b => (answer b).map .ok := by
  rw [read, Traced.result_bind]
  cases x.result with
  | error fault => rfl
  | ok reply =>
      obtain ⟨reply, p⟩ := reply
      cases reply with
      | error error => rfl
      | ok b =>
          change (Traced.result _).map _ = (answer b).map _
          rw [Traced.result_bind, Traced.result_monadLift]
          cases answer b <;> rfl

/-- Reading an answer off a query is a query. -/
theorem IsQuery.read (h : IsQuery p x x') (answer : β → Except Fault γ) :
    IsQuery p (read x answer) (read x' answer) where
  same_model hread := by
    obtain ⟨reply', hx, -⟩ := read_cases hread
    exact h.same_model hx
  keeps_current hcurrent _ _ hread := by
    obtain ⟨reply', hx, -⟩ := read_cases hread
    exact h.keeps_current hcurrent hx
  of_error hread := by
    obtain ⟨reply', hx, herror⟩ := read_cases hread
    rw [herror _ rfl] at hx
    exact h.of_error hx
  answers_alike hcurrent := by
    rw [read_reply, read_reply, h.answers_alike hcurrent]

end Read

/-- Whatever is read off the solution of the model is a query. -/
lemma isQuery_ask (p : Program α) (answer : Solved α → Except Fault β) :
    IsQuery p (p.ask answer) (p.unsolved.ask answer) :=
  (isQuery_solvedModel p).read answer

/-- The value of a variable is a query, also where the program does not have the variable. -/
lemma isQuery_value (p : Program α) (id : VariableId) :
    IsQuery p (p.value id) (p.unsolved.value id) := by
  have hsame : p.unsolved.vars = p.vars := rfl
  rw [value, value, hsame]
  by_cases hid : p.vars.length ≤ id.index
  · rw [if_pos hid, if_pos hid]
    exact isQuery_of_result_eq rfl rfl
  · rw [if_neg hid, if_neg hid]
    exact isQuery_ask p _

lemma perform_build_result (p : Program α) :
    (p.perform .build).result =
      .ok ((StandardForm.ofModel p.vars p.constraints p.objective).map
        fun (form, columns) => .built form columns, p) := by
  rw [perform, Traced.result_bind, build_result]
  rfl

/-- Every operation that is not a change is a query. -/
theorem isQuery_perform (p : Program α) (hop : op.isChange = false) :
    IsQuery p (p.perform op) (p.unsolved.perform op) := by
  cases op with
  | build => exact isQuery_of_result_eq (perform_build_result p) (perform_build_result p.unsolved)
  | solve => exact (isQuery_ask p _).read _
  | status => exact (isQuery_ask p _).read _
  | value id => exact (isQuery_value p id).read _
  | values => exact (isQuery_ask p _).read _
  | objectiveValue => exact (isQuery_ask p _).read _
  | _ => cases hop

/-! ### Replies alone -/

/-- What a query replies, without the program that it leaves. -/
def replyOf {β : Type} (x : Traced α (Reply α β)) : Except Fault (Except (ModelError α) β) :=
  x.result.map Prod.fst

/-- A query replies with what it reads off the solution. -/
lemma replyOf_ask_eq {answer : Solved α → Except Fault β} {b : β} {solved : Solved α}
    (hsolved : p.solvedModel.result = .ok (.ok solved, p')) (hanswer : answer solved = .ok b) :
    replyOf (p.ask answer) = .ok (.ok b) := by
  rw [replyOf, ask_result_eq hsolved hanswer]
  rfl

omit [Scalar α] in
/-- What is read off equal replies is equal. -/
lemma replyOf_read {β γ : Type} {x x' : Traced α (Reply α β)} (h : replyOf x' = replyOf x)
    (answer : β → Except Fault γ) : replyOf (read x' answer) = replyOf (read x answer) := by
  rw [replyOf, replyOf, read_reply, read_reply]
  exact congrArg (Except.bind · _) h

end Program

end LinProg
