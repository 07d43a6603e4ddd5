import LinProg.Proofs.Operation

/-!
A program never answers from a solution of an older model, whatever the arithmetic does.

* `Program.Effect`, `effect_perform`: all that an operation can do to a program, by what it replies.
* `eq_of_perform_eq_error`, `perform_reply_eq`: an operation that gives an error leaves the program
  as it was, and with a current solution every operation replies as without one.
* `Program.Sound`: what every operation keeps (`Sound.perform`): the known solution is current, and
  the model is one that an empty program accepts piece by piece (`Sound.replays`).
* `Session`: the programs that any sequence of operations leads to. `Session.never_stale` holds of
  all of them.
-/

namespace LinProg

variable {α : Type} [Scalar α]

/-- One of the ways to make a variable makes this one. -/
def Variable.Registrable (v : Variable α) : Prop :=
  v.Valid ∨ v = .nonnegative v.name ∨ v = .free v.name

namespace Program

variable {p p' : Program α} {op : Operation α}

/-! ### Changes -/

/-- What an operation makes of a program, by what it replies: the model stays as it was and a known
solution current, or one change of the model or its solver is accepted. -/
inductive Effect (p : Program α) :
    Operation α → Except (ModelError α) (Answer α) → Program α → Prop where
  | kept {op : Operation α} {reply : Except (ModelError α) (Answer α)} {p' : Program α}
      (hmodel : p' = { p with solved := p'.solved }) (hcurrent : p.Current → p'.Current)
      (hrefused : op.isChange = true → ∃ error, reply = .error error)
      (hsame : ∀ error, reply = .error error → p' = p) : Effect p op reply p'
  | registered {op : Operation α} {v : Variable α} {answer : Answer α} (hv : v.Registrable)
      (hop : op = .register v.name v.lower v.upper ∨ op = .registerNonnegative v.name ∨
        op = .registerFree v.name) : Effect p op (.ok answer) (p.addVariable v).2
  | constrained {c : Constraint α} (hknown : p.checkKnown c.terms = .ok ()) :
      Effect p (.addConstraint c) (.ok .changed)
        { p with constraints := p.constraints ++ [c], solved := none }
  | directed {objective : Objective α} (hknown : p.checkKnown objective.terms = .ok ()) :
      Effect p (.setObjective objective) (.ok .changed)
        { p with objective := some objective, solved := none }
  | resolved {solver : Solver α} :
      Effect p (.withSolver solver) (.ok .changed) (p.withSolver solver)

/-- Every operation has one of these effects. -/
theorem effect_perform {reply : Except (ModelError α) (Answer α)}
    (hp : (p.perform op).result = .ok (reply, p')) : p.Effect op reply p' := by
  have hkept : (∃ error, reply = .error error) ∧ p' = p → p.Effect op reply p' := by
    rintro ⟨hrefused, rfl⟩
    exact .kept rfl id (fun _ => hrefused) fun _ _ => rfl
  by_cases hop : op.isChange = false
  · have hquery := isQuery_perform p hop
    refine .kept (hquery.same_model hp) (fun h => hquery.keeps_current h hp)
      (fun h => absurd (hop.symm.trans h) Bool.false_ne_true) fun error herror => ?_
    subst herror
    exact hquery.of_error hp
  · cases op with
    | register name lower upper =>
        obtain ⟨answer, hregister, rfl⟩ := Reply.map_eq_iff.mp (Except.ok.inj hp)
        obtain ⟨hvalid, rfl, rfl⟩ | ⟨⟨error, rfl⟩, rfl⟩ := register_cases hregister
        · exact .registered (v := ⟨name, lower, upper⟩) (.inl hvalid) (.inl rfl)
        · exact hkept ⟨⟨error, rfl⟩, rfl⟩
    | registerNonnegative name =>
        obtain ⟨rfl, rfl⟩ := Prod.mk.inj (Except.ok.inj hp)
        exact .registered (.inr (.inl rfl)) (.inr (.inl rfl))
    | registerFree name =>
        obtain ⟨rfl, rfl⟩ := Prod.mk.inj (Except.ok.inj hp)
        exact .registered (.inr (.inr rfl)) (.inr (.inr rfl))
    | addConstraint c =>
        obtain ⟨answer, hadd, rfl⟩ := Reply.map_eq_iff.mp (Except.ok.inj hp)
        obtain ⟨hknown, rfl, rfl⟩ | ⟨⟨error, rfl⟩, rfl⟩ := addConstraint_cases hadd
        · exact .constrained hknown
        · exact hkept ⟨⟨error, rfl⟩, rfl⟩
    | setObjective objective =>
        obtain ⟨answer, hset, rfl⟩ := Reply.map_eq_iff.mp (Except.ok.inj hp)
        obtain ⟨hknown, rfl, rfl⟩ | ⟨⟨error, rfl⟩, rfl⟩ := setObjective_cases hset
        · exact .directed hknown
        · exact hkept ⟨⟨error, rfl⟩, rfl⟩
    | withSolver solver =>
        obtain ⟨rfl, rfl⟩ := Prod.mk.inj (Except.ok.inj hp)
        exact .resolved
    | _ => exact absurd rfl hop

/-- An operation that gives an error leaves the program as it was. -/
theorem eq_of_perform_eq_error {error : ModelError α}
    (h : (p.perform op).result = .ok (.error error, p')) : p' = p := by
  cases effect_perform h with
  | kept _ _ _ hsame => exact hsame error rfl

/-- Where the known solution is current, every operation replies as if there were none. -/
theorem perform_reply_eq (hcurrent : p.Current) (op : Operation α) :
    (p.perform op).result.map Prod.fst = (p.unsolved.perform op).result.map Prod.fst := by
  by_cases hop : op.isChange = false
  · exact (isQuery_perform p hop).answers_alike hcurrent
  · cases op with
    | register name lower upper =>
        simp only [perform, register]
        cases Variable.ofBounds name lower upper <;> rfl
    | addConstraint c =>
        have hsame : p.unsolved.checkKnown c.terms = p.checkKnown c.terms := rfl
        simp only [perform, addConstraint, hsame]
        cases p.checkKnown c.terms <;> rfl
    | setObjective objective =>
        have hsame : p.unsolved.checkKnown objective.terms = p.checkKnown objective.terms := rfl
        simp only [perform, setObjective, hsame]
        cases p.checkKnown objective.terms <;> rfl
    | registerNonnegative name => rfl
    | registerFree name => rfl
    | withSolver solver => rfl
    | _ => exact absurd rfl hop

/-! ### What every operation keeps -/

/-- A known solution is current, and the parts of the model are ones that the program accepts. -/
structure Sound (p : Program α) : Prop where
  current : p.Current
  registrable : ∀ v ∈ p.vars, v.Registrable
  constraints_known : ∀ c ∈ p.constraints, p.checkKnown c.terms = .ok ()
  objective_known : ∀ objective, p.objective = some objective →
    p.checkKnown objective.terms = .ok ()

omit [Scalar α] in
/-- A further variable refuses no sum. -/
lemma checkKnown_addVariable {terms : Terms α} (h : p.checkKnown terms = .ok ())
    (v : Variable α) : (p.addVariable v).2.checkKnown terms = .ok () := by
  rw [checkKnown_eq_ok_iff] at h ⊢
  intro term hterm
  have := h term hterm
  simp only [addVariable, List.length_append, List.length_singleton]
  omega

lemma sound_empty (solver : Solver α) : (Program.empty solver).Sound where
  current := current_of_solved_eq_none rfl
  registrable _ hv := by cases hv
  constraints_known _ hc := by cases hc
  objective_known _ ho := by cases ho

lemma Sound.addVariable (h : p.Sound) {v : Variable α} (hv : v.Registrable) :
    (p.addVariable v).2.Sound where
  current := current_of_solved_eq_none rfl
  registrable w hw := by
    rcases List.mem_append.mp hw with hw | hw
    · exact h.registrable w hw
    · rw [List.mem_singleton.mp hw]
      exact hv
  constraints_known c hc := checkKnown_addVariable (h.constraints_known c hc) v
  objective_known o ho := checkKnown_addVariable (h.objective_known o ho) v

/-- Every operation keeps a program sound. -/
theorem Sound.perform (h : p.Sound) {reply : Except (ModelError α) (Answer α)}
    (hp : (p.perform op).result = .ok (reply, p')) : p'.Sound := by
  -- the model or what is known of it stays, and an accepted change drops what was known
  cases effect_perform hp with
  | kept hmodel hcurrent =>
      have hcurrent := hcurrent h.current
      rw [hmodel] at hcurrent ⊢
      exact ⟨hcurrent, h.registrable, h.constraints_known, h.objective_known⟩
  | registered hv hop => exact h.addVariable hv
  | @constrained c hknown =>
      refine ⟨current_of_solved_eq_none rfl, h.registrable, fun c' hc' => ?_, h.objective_known⟩
      rcases List.mem_append.mp hc' with hc' | hc'
      · exact h.constraints_known c' hc'
      · rw [List.mem_singleton.mp hc']
        exact hknown
  | directed hknown =>
      refine ⟨current_of_solved_eq_none rfl, h.registrable, h.constraints_known, ?_⟩
      intro o ho
      rw [← Option.some.inj ho]
      exact hknown
  | resolved =>
      exact ⟨current_of_solved_eq_none rfl, h.registrable, h.constraints_known, h.objective_known⟩

/-! ### The same model from the start -/

/-- A change of the first program is accepted and gives the second one. -/
def Accepts (p p' : Program α) : Prop :=
  ∃ op answer, op.isChange = true ∧ (p.perform op).result = .ok (.ok answer, p')

lemma accepts_addVariable (p : Program α) {v : Variable α} (hv : v.Registrable) :
    p.Accepts (p.addVariable v).2 := by
  rcases hv with hv | hv | hv
  · refine ⟨.register v.name v.lower v.upper, .registered ⟨p.vars.length⟩, rfl, ?_⟩
    rw [Program.perform, register_of_valid hv]
    rfl
  · rw [hv]
    exact ⟨.registerNonnegative v.name, _, rfl, rfl⟩
  · rw [hv]
    exact ⟨.registerFree v.name, _, rfl, rfl⟩

lemma accepts_addConstraint {c : Constraint α} (hc : p.checkKnown c.terms = .ok ()) :
    p.Accepts { p with constraints := p.constraints ++ [c], solved := none } := by
  refine ⟨.addConstraint c, .changed, rfl, ?_⟩
  rw [Program.perform, addConstraint_of_known hc]
  rfl

lemma accepts_setObjective {objective : Objective α}
    (ho : p.checkKnown objective.terms = .ok ()) :
    p.Accepts { p with objective := some objective, solved := none } := by
  refine ⟨.setObjective objective, .changed, rfl, ?_⟩
  rw [Program.perform, setObjective_of_known ho]
  rfl

section Replay

variable {solver : Solver α} {vars before : List (Variable α)} {constraints : List (Constraint α)}

/-- Variables are registered one after another. -/
lemma replays_vars (h : ∀ v ∈ vars, v.Registrable) (before : List (Variable α)) :
    Relation.ReflTransGen Accepts ⟨before, [], none, solver, none⟩
      ⟨before ++ vars, [], none, solver, none⟩ := by
  induction vars generalizing before with
  | nil =>
      rw [List.append_nil]
  | cons v vars ih =>
      have hstep := accepts_addVariable ⟨before, [], none, solver, none⟩ (h v (by simp))
      have hrest := ih (fun w hw => h w (by simp [hw])) (before ++ [v])
      rw [List.append_assoc] at hrest
      exact .head hstep hrest

/-- Constraints on known variables are added one after another. -/
lemma replays_constraints
    (h : ∀ c ∈ constraints, ∀ term ∈ c.terms, term.1.index < vars.length)
    (before : List (Constraint α)) :
    Relation.ReflTransGen Accepts ⟨vars, before, none, solver, none⟩
      ⟨vars, before ++ constraints, none, solver, none⟩ := by
  induction constraints generalizing before with
  | nil =>
      rw [List.append_nil]
  | cons c constraints ih =>
      have hstep := accepts_addConstraint (p := ⟨vars, before, none, solver, none⟩)
        (checkKnown_eq_ok_iff.mpr (h c (by simp)))
      have hrest := ih (fun c' hc' => h c' (by simp [hc'])) (before ++ [c])
      rw [List.append_assoc] at hrest
      exact .head hstep hrest

end Replay

/-- The model of a sound program is built on an empty one by changes that are all accepted. -/
theorem Sound.replays (h : p.Sound) :
    Relation.ReflTransGen Accepts (Program.empty p.solver) p.unsolved := by
  have hvars : Relation.ReflTransGen Accepts (Program.empty p.solver)
      ⟨p.vars, [], none, p.solver, none⟩ := replays_vars h.registrable []
  have hconstraints : Relation.ReflTransGen Accepts ⟨p.vars, [], none, p.solver, none⟩
      ⟨p.vars, p.constraints, none, p.solver, none⟩ :=
    replays_constraints (fun c hc => checkKnown_eq_ok_iff.mp (h.constraints_known c hc)) []
  have hmodel := hvars.trans hconstraints
  cases hobjective : p.objective with
  | none =>
      have heq : p.unsolved = ⟨p.vars, p.constraints, none, p.solver, none⟩ := by
        rw [unsolved, hobjective]
      rw [heq]
      exact hmodel
  | some objective =>
      have heq : p.unsolved = ⟨p.vars, p.constraints, some objective, p.solver, none⟩ := by
        rw [unsolved, hobjective]
      rw [heq]
      exact hmodel.tail (accepts_setObjective (p := ⟨p.vars, p.constraints, none, p.solver, none⟩)
        (h.objective_known objective hobjective))

end Program

/-! ### Sessions -/

open Program

/-- Programs that come from an empty one by any sequence of operations, accepted or not. -/
inductive Session : Program α → Prop where
  | start (solver : Solver α) : Session (Program.empty solver)
  | perform (op : Operation α) {p p' : Program α} {reply : Except (ModelError α) (Answer α)}
      (h : Session p) (hp : (p.perform op).result = .ok (reply, p')) : Session p'

variable {p : Program α}

/-- Every operation keeps a program sound, and so does every sequence of them. -/
lemma Session.sound (h : Session p) : p.Sound := by
  induction h with
  | start solver => exact sound_empty solver
  | perform op _ hp ih => exact ih.perform hp

/-- After any sequence of operations, in any order and whether accepted or refused: a known solution
is what the solver gives for the model as it is; every operation replies as it would on a program on
which the same model is newly built; an operation that gives an error leaves the program as it was;
and a query changes nothing but the known solution. -/
theorem Session.never_stale (h : Session p) :
    p.Current ∧
    (Relation.ReflTransGen Accepts (Program.empty p.solver) p.unsolved ∧
      ∀ op, (p.perform op).result.map Prod.fst = (p.unsolved.perform op).result.map Prod.fst) ∧
    (∀ op error p', (p.perform op).result = .ok (.error error, p') → p' = p) ∧
    ∀ op reply p', op.isChange = false → (p.perform op).result = .ok (reply, p') →
      p' = { p with solved := p'.solved } := by
  have hsound := h.sound
  refine ⟨hsound.current, ⟨hsound.replays, perform_reply_eq hsound.current⟩, ?_, ?_⟩
  · intro op error p' hp
    exact eq_of_perform_eq_error hp
  · intro op reply p' hop hp
    exact (isQuery_perform p hop).same_model hp

/-- The program that makes the double of a variable between one and three as large as it can be,
once it is solved. -/
def solvedSample : Program ℚ where
  vars := [⟨"x", some 1, some 3⟩]
  constraints := []
  objective := some ⟨.maximize, [(⟨0⟩, 2)]⟩
  solver := ⟨1 / 10⟩
  solved := some ⟨.feasible #[2] 6 1, ⟨[.shifted 1 0], 1⟩⟩

/-- The program of the sample once a bound of two is added. -/
def cappedSample : Program ℚ :=
  { solvedSample with constraints := [⟨[(⟨0⟩, 1)], .le, 2⟩], solved := none }

lemma session_solvedSample : Session solvedSample := by
  have hvar : Session ((Program.empty (⟨1 / 10⟩ : Solver ℚ)).addVariable
      ⟨"x", some 1, some 3⟩).2 :=
    @Session.perform _ _ (.register "x" (some 1) (some 3)) _ _ (.ok (.registered ⟨0⟩))
      (.start ⟨1 / 10⟩) (by decide +kernel)
  have hobjective : Session { solvedSample with solved := none } :=
    @Session.perform _ _ (.setObjective ⟨.maximize, [(⟨0⟩, 2)]⟩) _ _ (.ok .changed) hvar
      (by decide +kernel)
  exact @Session.perform _ _ .solve _ _ (.ok (.solution (.feasible #[2] 6 1))) hobjective
    (by decide +kernel)

/-- There a constraint on an unknown variable is refused and keeps the known solution. A bound of
two is accepted, and the optimum is no longer six but four, as on a new program. -/
theorem Session.never_stale_solvedSample :
    Session solvedSample ∧
    (∀ p', (solvedSample.perform (.addConstraint ⟨[(⟨4⟩, 1)], .le, 2⟩)).result =
      .ok (.error (.unknownVariable 4), p') → p' = solvedSample) ∧
    (solvedSample.perform (.addConstraint ⟨[(⟨0⟩, 1)], .le, 2⟩)).result =
      .ok (.ok .changed, cappedSample) ∧
    (solvedSample.perform .objectiveValue).result.map Prod.fst =
      .ok (.ok (.objectiveValue (some (.value 6)))) ∧
    (cappedSample.perform .objectiveValue).result.map Prod.fst =
      .ok (.ok (.objectiveValue (some (.value 4)))) ∧
    (cappedSample.unsolved.perform .objectiveValue).result.map Prod.fst =
      .ok (.ok (.objectiveValue (some (.value 4)))) := by
  have hadd : (solvedSample.perform (.addConstraint ⟨[(⟨0⟩, 1)], .le, 2⟩)).result =
      .ok (.ok .changed, cappedSample) := by
    decide +kernel
  have hask : (cappedSample.perform .objectiveValue).result.map Prod.fst =
      .ok (.ok (.objectiveValue (some (.value 4)))) := by
    decide +kernel
  refine ⟨session_solvedSample, fun p' hp => session_solvedSample.never_stale.2.2.1 _ _ _ hp, hadd,
    by decide +kernel, hask, ?_⟩
  rw [← (Session.perform _ session_solvedSample hadd).never_stale.2.1.2]
  exact hask

end LinProg
