import LinProg.Proofs.Session
import LinProg.Proofs.StandardForm.Construction
import LinProg.Proofs.StandardForm.Defects

/-!
Which errors a program gives, by what was asked of it before, whatever the arithmetic does.

* `Transcript`: the programs that any sequence of operations leads to, with what was asked and what
  was replied. `Transcript.session` forgets that.
* `SetsObjective`, `Transcript.objective_eq_none_iff`: a program has no objective as long as none
  was accepted.
* `Program.read_eq_error_iff`, `solvedModel_eq_error_iff`: an error of a query is one of the
  canonical form, and `Program.Sound.ofModel_eq_error_iff` says that only the objective can be
  missing there.
* `Program.defects_exact`: which models have no canonical form, with the error that each of them
  gives; and that of these errors a program gives one only.
-/

namespace LinProg

variable {α : Type} [Scalar α] {β γ : Type}

/-! ### Transcripts -/

/-- An operation with its reply. -/
abbrev Exchange (α : Type) := Operation α × Except (ModelError α) (Answer α)

omit [Scalar α] in
/-- An objective was given and accepted. -/
def SetsObjective (exchange : Exchange α) : Prop :=
  ∃ objective answer, exchange = (.setObjective objective, .ok answer)

/-- Programs that come from an empty one by any sequence of operations, accepted or not, with all
that was asked and replied on the way. -/
inductive Transcript : List (Exchange α) → Program α → Prop where
  | start (solver : Solver α) : Transcript [] (Program.empty solver)
  | perform {log : List (Exchange α)} {p p' : Program α}
      {reply : Except (ModelError α) (Answer α)} (h : Transcript log p) (op : Operation α)
      (hp : (p.perform op).result = .ok (reply, p')) : Transcript (log ++ [(op, reply)]) p'

variable {log : List (Exchange α)} {p p' : Program α} {op : Operation α}

lemma Transcript.session (h : Transcript log p) : Session p := by
  induction h with
  | start solver => exact .start solver
  | perform _ op hp ih => exact .perform op ih hp

namespace Program

/-- Only an objective that is accepted changes whether there is one. -/
lemma objective_perform_eq_none_iff {reply : Except (ModelError α) (Answer α)}
    (hp : (p.perform op).result = .ok (reply, p')) :
    p'.objective = none ↔ p.objective = none ∧ ¬ SetsObjective (op, reply) := by
  cases effect_perform hp with
  | kept hmodel _ hrefused =>
      have hsets : ¬ SetsObjective (op, reply) := by
        rintro ⟨objective, answer, h⟩
        obtain ⟨rfl, rfl⟩ := Prod.mk.inj h
        obtain ⟨error, h⟩ := hrefused rfl
        cases h
      rw [hmodel]
      simp [hsets]
  | registered _ hop =>
      rcases hop with rfl | rfl | rfl <;> simp [SetsObjective, addVariable, unsolved]
  | constrained => simp [SetsObjective]
  | directed => simp [SetsObjective]
  | resolved => simp [SetsObjective, withSolver, unsolved]

end Program

/-- A program has no objective as long as none was accepted. -/
theorem Transcript.objective_eq_none_iff (h : Transcript log p) :
    p.objective = none ↔ ∀ exchange ∈ log, ¬ SetsObjective exchange := by
  induction h with
  | start solver => simp [Program.empty]
  | perform _ op hp ih =>
      rw [Program.objective_perform_eq_none_iff hp, ih, List.forall_mem_append,
        List.forall_mem_singleton]

/-! ### Errors of queries -/

namespace Program

variable {error : ModelError α}

omit [Scalar α] in
/-- What is read off a reply has the errors of the reply. -/
lemma read_eq_error_iff {x : Traced α (Reply α β)} {answer : β → Except Fault γ} :
    (read x answer).result = .ok (.error error, p') ↔ x.result = .ok (.error error, p') := by
  constructor
  · intro h
    obtain ⟨reply, hx, herror⟩ := read_cases h
    rw [hx, herror error rfl]
  · intro h
    rw [read, Traced.result_bind, h]
    rfl

/-- Where a known solution is current, asking for the solution has the errors of the canonical
form. -/
lemma solvedModel_eq_error_iff (h : p.Current) :
    p.solvedModel.result = .ok (.error error, p') ↔
      StandardForm.ofModel p.vars p.constraints p.objective = .error error ∧ p' = p := by
  cases hsolved : p.solved with
  | some solved =>
      obtain ⟨form, hform, -⟩ := h solved hsolved
      simp [solvedModel_of_solved hsolved, hform]
  | none =>
      rw [solvedModel_of_unsolved hsolved]
      cases StandardForm.ofModel p.vars p.constraints p.objective with
      | error error' => simp [eq_comm]
      | ok built =>
          obtain ⟨form, columns⟩ := built
          cases hsolve : (p.solver.solve form).result <;> simp [hsolve, Except.map]

/-- And so has every other query about it. -/
lemma ask_eq_error_iff (h : p.Current) {answer : Solved α → Except Fault β} :
    (p.ask answer).result = .ok (.error error, p') ↔
      StandardForm.ofModel p.vars p.constraints p.objective = .error error ∧ p' = p := by
  rw [ask, read_eq_error_iff, solvedModel_eq_error_iff h]

/-- A program that is sound has no unknown variables, and so its objective is all that can be
missing. -/
lemma Sound.ofModel_eq_error_iff (h : p.Sound) :
    StandardForm.ofModel p.vars p.constraints p.objective = .error error ↔
      p.objective = none ∧ error = .missingObjective := by
  rw [StandardForm.ofModel_eq_error_iff]
  refine or_iff_left ?_
  rintro ⟨objective, id, hobjective, hunknown, -⟩
  have hknown : ∀ term ∈ StandardForm.modelTerms p.constraints objective,
      term.1.index < p.vars.length := by
    refine List.forall_mem_append.mpr ⟨fun term hterm => ?_,
      checkKnown_eq_ok_iff.mp (h.objective_known objective hobjective)⟩
    obtain ⟨c, hc, hterm⟩ := List.mem_flatMap.mp hterm
    exact checkKnown_eq_ok_iff.mp (h.constraints_known c hc) term hterm
  rw [← Terms.firstUnknown?_eq_some, Terms.firstUnknown?_eq_none.mpr hknown] at hunknown
  cases hunknown

/-- A query that asks for no unknown variable gives an error where the objective is missing. -/
theorem Sound.perform_eq_error_iff (h : p.Sound) (hop : op.isChange = false)
    (hknown : ∀ id, op = .value id → id.index < p.vars.length) :
    (p.perform op).result = .ok (.error error, p') ↔
      p.objective = none ∧ error = .missingObjective ∧ p' = p := by
  rw [← and_assoc, ← h.ofModel_eq_error_iff]
  cases op with
  | build =>
      rw [perform_build_result]
      cases StandardForm.ofModel p.vars p.constraints p.objective <;> simp [Except.map, eq_comm]
  | solve => exact read_eq_error_iff.trans (ask_eq_error_iff h.current)
  | status => exact read_eq_error_iff.trans (ask_eq_error_iff h.current)
  | value id =>
      refine read_eq_error_iff.trans ?_
      rw [value, if_neg (Nat.not_le.mpr (hknown id rfl))]
      exact ask_eq_error_iff h.current
  | values => exact read_eq_error_iff.trans (ask_eq_error_iff h.current)
  | objectiveValue => exact read_eq_error_iff.trans (ask_eq_error_iff h.current)
  | _ => cases hop

/-- The value of an unknown variable is refused before anything is built. -/
lemma perform_value_of_unknown {id : VariableId} (h : p.vars.length ≤ id.index) :
    (p.perform (.value id)).result = .ok (.error (.unknownVariable id.index), p) := by
  rw [perform, read_eq_error_iff, value, if_pos h]
  rfl

/-! ### Exact errors -/

/-- For any variables, constraints and objective, all of them as they come: when the canonical form
is built, row by row, no index and no length is ever wrong; a missing objective is reported where it
is missing, whatever else is; otherwise the first unknown variable, in the order of the constraints,
of the terms of each of them, and then of the objective; and otherwise the canonical form is there.
A program that any sequence of operations has led to has only the first of these errors, and as long
as no objective was accepted it has it in every query but one: the value of an unknown variable is
always refused as such. -/
theorem defects_exact :
    (∀ (vars : List (Variable α)) (constraints : List (Constraint α))
      (objective? : Option (Objective α)),
      Checked.Passes (StandardForm.construct vars constraints objective?)
        (StandardForm.ofModel vars constraints objective?) ∧
      (StandardForm.ofModel vars constraints objective? = .error .missingObjective ↔
        objective? = none) ∧
      (∀ k, StandardForm.ofModel vars constraints objective? = .error (.unknownVariable k) ↔
        ∃ objective, objective? = some objective ∧
          (StandardForm.modelTerms constraints objective).FirstUnknown vars.length ⟨k⟩) ∧
      ((∃ built, StandardForm.ofModel vars constraints objective? = .ok built) ↔
        ∃ objective, objective? = some objective ∧
          ∀ term ∈ StandardForm.modelTerms constraints objective, term.1.index < vars.length) ∧
      ∀ error, StandardForm.ofModel vars constraints objective? = .error error →
        error = .missingObjective ∨ ∃ k, error = .unknownVariable k) ∧
    ∀ (log : List (Exchange α)) (p : Program α), Transcript log p →
      (∃ reply, (p.perform .build).result = .ok (reply, p)) ∧
      (∀ op : Operation α, op.isChange = false →
        (∀ id, op = .value id → id.index < p.vars.length) → ∀ error p',
        ((p.perform op).result = .ok (.error error, p') ↔
          (∀ exchange ∈ log, ¬ SetsObjective exchange) ∧ error = .missingObjective ∧ p' = p)) ∧
      ∀ id : VariableId, p.vars.length ≤ id.index →
        (p.perform (.value id)).result = .ok (.error (.unknownVariable id.index), p) := by
  constructor
  · intro vars constraints objective?
    refine ⟨StandardForm.construct_passes vars constraints objective?, ?_, fun k => ?_,
      StandardForm.exists_ofModel_iff, fun error h => ?_⟩
    · simp [StandardForm.ofModel_eq_error_iff]
    · rw [StandardForm.ofModel_eq_error_iff]
      constructor
      · rintro (⟨-, h⟩ | ⟨objective, id, hobjective, hunknown, h⟩)
        · cases h
        · cases h
          exact ⟨objective, hobjective, hunknown⟩
      · rintro ⟨objective, hobjective, hunknown⟩
        exact .inr ⟨objective, ⟨k⟩, hobjective, hunknown, rfl⟩
    · rcases StandardForm.ofModel_eq_error_iff.mp h with ⟨-, h⟩ | ⟨_, id, -, -, h⟩
      · exact .inl h
      · exact .inr ⟨id.index, h⟩
  · intro log p h
    refine ⟨⟨_, perform_build_result p⟩, fun op hop hknown error p' => ?_,
      fun id => perform_value_of_unknown⟩
    rw [← h.objective_eq_none_iff]
    exact h.session.sound.perform_eq_error_iff hop hknown

/-- The sample before its objective is given. -/
def aimlessSample : Program ℚ := { solvedSample with objective := none, solved := none }

/-- What leads to it: a variable is registered, and an objective on an unknown one is refused. -/
def aimlessLog : List (Exchange ℚ) :=
  [(.register "x" (some 1) (some 3), .ok (.registered ⟨0⟩)),
    (.setObjective ⟨.maximize, [(⟨4⟩, 2)]⟩, .error (.unknownVariable 4))]

lemma transcript_aimlessSample : Transcript aimlessLog aimlessSample := by
  have hvar : Transcript [(.register "x" (some 1) (some 3), .ok (.registered ⟨0⟩))]
      aimlessSample :=
    (Transcript.start ⟨1 / 10⟩).perform (.register "x" (some 1) (some 3)) (by decide +kernel)
  exact hvar.perform (.setObjective ⟨.maximize, [(⟨4⟩, 2)]⟩) (by decide +kernel)

/-- As long as that is all, solving gives the error that the objective is missing. Once one is
accepted no query gives an error, unless it asks for the value of an unknown variable. And of an
equation on the variables zero and seven, with an objective on the variable five, it is seven that
is reported. -/
theorem defects_exact_sample :
    Transcript aimlessLog aimlessSample ∧
    (aimlessSample.perform .solve).result = .ok (.error .missingObjective, aimlessSample) ∧
    (aimlessSample.perform (.value ⟨4⟩)).result =
      .ok (.error (.unknownVariable 4), aimlessSample) ∧
    Transcript (aimlessLog ++ [(.setObjective ⟨.maximize, [(⟨0⟩, 2)]⟩, .ok .changed)])
      solvedSample.unsolved ∧
    (∀ error p', (solvedSample.unsolved.perform .values).result ≠ .ok (.error error, p')) ∧
    StandardForm.ofModel solvedSample.vars [⟨[(⟨0⟩, 1), (⟨7⟩, 1)], .eq, 1⟩]
      (some ⟨.maximize, [(⟨5⟩, 1)]⟩) = .error (.unknownVariable 7) := by
  obtain ⟨hmodel, hprogram⟩ := @defects_exact ℚ _
  obtain ⟨-, haimless, hunknown⟩ := hprogram _ _ transcript_aimlessSample
  have haimed : Transcript (aimlessLog ++ [(.setObjective ⟨.maximize, [(⟨0⟩, 2)]⟩, .ok .changed)])
      solvedSample.unsolved :=
    transcript_aimlessSample.perform (.setObjective ⟨.maximize, [(⟨0⟩, 2)]⟩) (by decide +kernel)
  refine ⟨transcript_aimlessSample, ?_, hunknown ⟨4⟩ (by decide), haimed, fun error p' h => ?_, ?_⟩
  · refine (haimless .solve rfl (fun _ h => by cases h) _ _).mpr ⟨?_, rfl, rfl⟩
    simp [aimlessLog, SetsObjective]
  · obtain ⟨hnone, -⟩ := ((hprogram _ _ haimed).2.1 .values rfl (fun _ h => by cases h) _ _).mp h
    exact hnone _ (List.mem_append_right _ (List.mem_singleton.mpr rfl)) ⟨_, _, rfl⟩
  · refine ((hmodel _ _ _).2.2.1 7).mpr ⟨_, rfl, [(⟨0⟩, 1)], 1, [(⟨5⟩, 1)], rfl, ?_, ?_⟩
    · decide
    · decide

end Program

end LinProg
