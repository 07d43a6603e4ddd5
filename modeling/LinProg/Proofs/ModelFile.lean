import LinProg.Proofs.Session
import LinProg.ModelFile

/-!
What the description of a model is loaded as, in any arithmetic.

* `VariableEntry.toVariable`: the variable that is described.
* `ModelFile.Loading`: what every step of loading keeps: the program comes from an empty one by
  operations that are all accepted, and its variables are valid and have names of their own.
* `ModelFile.Loads`, `ModelFile.loads_of_toProgram`: a program that is loaded has exactly the
  variables that are described, in order, and an objective.
-/

namespace LinProg

variable {α : Type} [Scalar α]

/-- The variable as described. -/
def VariableEntry.toVariable (entry : VariableEntry α) : Variable α :=
  ⟨entry.name, entry.lowerBound, entry.upperBound⟩

namespace ModelFile

variable {p p' : Program α} {vars : List (Variable α)} {name : String}

omit [Scalar α] in
/-- A name has a handle where a variable has the name. -/
lemma idOf?_eq_none_iff : idOf? vars name = none ↔ name ∉ vars.map Variable.name := by
  simp [idOf?, List.findIdx?_eq_none_iff]

/-! ### Steps -/

/-- What every step of loading keeps. -/
structure Loading (p : Program α) : Prop where
  session : Session p
  solved_eq : p.solved = none
  valid : ∀ v ∈ p.vars, v.Valid
  nodup : (p.vars.map Variable.name).Nodup

/-- A variable is declared with the name and the bounds that are described, if these are valid and
the name is new. -/
lemma declare_eq_ok {entry : VariableEntry α} (h : declare p entry = .ok p') :
    entry.name ∉ p.vars.map Variable.name ∧ entry.toVariable.Valid ∧
      p' = (p.addVariable entry.toVariable).2 := by
  rw [declare] at h
  split at h
  · cases h
  · rename_i hnew
    obtain ⟨id, hregister⟩ := Reply.accepted_eq_ok.mp (mapError_eq_ok.mp h)
    obtain ⟨hvalid, -, rfl⟩ | ⟨⟨error, herror⟩, -⟩ := Program.register_cases hregister
    · exact ⟨idOf?_eq_none_iff.mp hnew, hvalid, rfl⟩
    · cases herror

lemma Loading.declare (hp : Loading p) {entry : VariableEntry α}
    (h : ModelFile.declare p entry = .ok p') : Loading p' := by
  obtain ⟨hnew, hvalid, rfl⟩ := declare_eq_ok h
  obtain ⟨op, answer, -, hop⟩ := p.accepts_addVariable (.inl hvalid)
  refine ⟨.perform op hp.session hop, rfl, ?_, ?_⟩
  · intro v hv
    rcases List.mem_append.mp hv with hv | hv
    · exact hp.valid v hv
    · rw [List.mem_singleton.mp hv]
      exact hvalid
  · rw [Program.addVariable, List.map_append, List.nodup_append']
    exact ⟨hp.nodup, List.nodup_singleton _, by simpa [VariableEntry.toVariable] using hnew⟩

/-- A constraint is added as described; the variables stay as they are. -/
lemma Loading.constrain (hp : Loading p) {numbered : ConstraintEntry α × ℕ}
    (h : ModelFile.constrain p numbered = .ok p') : Loading p' ∧ p'.vars = p.vars := by
  obtain ⟨terms, -, h⟩ := bind_eq_ok.mp h
  obtain ⟨c, -, hadd⟩ := bind_eq_ok.mp (mapError_eq_ok.mp h)
  obtain ⟨_, hadd⟩ := Reply.accepted_eq_ok.mp hadd
  obtain ⟨hknown, -, rfl⟩ | ⟨⟨error, herror⟩, -⟩ := Program.addConstraint_cases hadd
  · obtain ⟨op, answer, -, hop⟩ := Program.accepts_addConstraint hknown
    exact ⟨⟨.perform op hp.session hop, rfl, hp.valid, hp.nodup⟩, rfl⟩
  · cases herror

/-- An objective is set; the variables stay as they are. -/
lemma Loading.aim (hp : Loading p) {described : Option (ObjectiveEntry α)}
    (h : ModelFile.aim p described = .ok p') :
    Loading p' ∧ p'.vars = p.vars ∧ ∃ objective, p'.objective = some objective := by
  have hset : ∃ objective, inContext .objective (p.setObjective objective).accepted = .ok p' := by
    cases described with
    | none => exact ⟨Objective.empty, h⟩
    | some entry =>
        obtain ⟨terms, -, h⟩ := bind_eq_ok.mp h
        obtain ⟨objective, -, h⟩ := bind_eq_ok.mp h
        exact ⟨objective, h⟩
  obtain ⟨objective, hset⟩ := hset
  obtain ⟨_, hset⟩ := Reply.accepted_eq_ok.mp (mapError_eq_ok.mp hset)
  obtain ⟨hknown, -, rfl⟩ | ⟨⟨error, herror⟩, -⟩ := Program.setObjective_cases hset
  · obtain ⟨op, answer, -, hop⟩ := Program.accepts_setObjective hknown
    exact ⟨⟨.perform op hp.session hop, rfl, hp.valid, hp.nodup⟩, rfl, objective, rfl⟩
  · cases herror

/-! ### Descriptions -/

lemma Loading.empty (solver : Solver α) : Loading (Program.empty solver) where
  session := .start solver
  solved_eq := rfl
  valid v hv := by cases hv
  nodup := .nil

/-- The variables are those that are described, in order. -/
lemma vars_of_foldlM_declare {entries : List (VariableEntry α)}
    (h : entries.foldlM declare p = .ok p') :
    p'.vars = p.vars ++ entries.map VariableEntry.toVariable := by
  induction entries generalizing p with
  | nil =>
      obtain rfl := Except.ok.inj h
      rw [List.map_nil, List.append_nil]
  | cons entry entries ih =>
      rw [List.foldlM_cons] at h
      obtain ⟨next, hnext, hrest⟩ := bind_eq_ok.mp h
      obtain ⟨-, -, rfl⟩ := declare_eq_ok hnext
      rw [ih hrest, Program.addVariable, List.append_assoc, List.map_cons, List.singleton_append]

/-- A program that a description is loaded as. -/
structure Loads (file : ModelFile α) (p : Program α) : Prop extends Loading p where
  vars_eq : p.vars = file.vars.map VariableEntry.toVariable
  objective_eq : ∃ objective, p.objective = some objective

/-- Loading gives a program with the variables that are described and an objective. -/
theorem loads_of_toProgram {solver : Solver α} {file : ModelFile α}
    (h : file.toProgram solver = .ok p) : file.Loads p := by
  obtain ⟨declared, hdeclared, h⟩ := bind_eq_ok.mp h
  obtain ⟨constrained, hconstrained, haim⟩ := bind_eq_ok.mp h
  have hvars : declared.vars = file.vars.map VariableEntry.toVariable :=
    vars_of_foldlM_declare hdeclared
  have hloading : Loading declared :=
    foldlM_preserves (fun hq hstep => hq.declare hstep) (.empty solver) hdeclared
  have hboth : Loading constrained ∧ constrained.vars = declared.vars :=
    foldlM_preserves (P := fun q => Loading q ∧ q.vars = declared.vars)
      (fun hq hstep => ⟨(hq.1.constrain hstep).1, (hq.1.constrain hstep).2.trans hq.2⟩)
      ⟨hloading, rfl⟩ hconstrained
  obtain ⟨hp, hsame, hobjective⟩ := hboth.1.aim haim
  exact ⟨hp, by rw [hsame, hboth.2, hvars], hobjective⟩

/-- Whatever a text is loaded as, it is read as a description first. -/
lemma parse_eq_ok [Json.NumberText α] {solver : Solver α} {text : String}
    (h : parse solver text = .ok p) :
    ∃ file, Json.Reader.document read text = .ok file ∧ file.Loads p := by
  obtain ⟨file, hread, hload⟩ := bind_eq_ok.mp h
  exact ⟨file, mapError_eq_ok.mp hread, loads_of_toProgram hload⟩

end ModelFile

end LinProg
