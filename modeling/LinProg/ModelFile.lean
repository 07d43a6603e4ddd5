import LinProg.Json.Forms
import LinProg.Program

/-!
Model files: linear programs described in JSON, with variables called by name.

* `ModelFile` and its parts: a variable, a constraint and an objective as described.
* `VariableEntry.lowerBound`, `upperBound`: the bounds of a variable; an infinite one is missing.
* `ModelFile.read`: reading a description.
* `LoadError`, `LoadError.message`: what can keep a file from being loaded.
* `ModelFile.toProgram`: the program that a description stands for; the first problem in the
  order of the file decides.
* `ModelFile.parse`: both together.
-/

namespace LinProg

/-! ### Descriptions -/

/-- A variable as described. -/
structure VariableEntry (α : Type) where
  name : String
  lower : Option α
  upper : Option α
  deriving DecidableEq, Repr

/-- A sum as described: names with weights. -/
abbrev NamedTerms (α : Type) := List (String × α)

/-- A constraint as described. -/
structure ConstraintEntry (α : Type) where
  terms : NamedTerms α
  relation : Relation
  rhs : α
  deriving DecidableEq, Repr

/-- An objective as described. -/
structure ObjectiveEntry (α : Type) where
  goal : Goal
  terms : NamedTerms α
  deriving DecidableEq, Repr

/-- The description of a linear program. -/
structure ModelFile (α : Type) where
  vars : List (VariableEntry α)
  constraints : List (ConstraintEntry α)
  objective : Option (ObjectiveEntry α)
  deriving DecidableEq, Repr

namespace VariableEntry

variable {α : Type} [Scalar α]

/-- The lower bound of the variable, if it has one: `-∞` is none. -/
def lowerBound (entry : VariableEntry α) : Option α :=
  entry.lower.filter fun x => !Scalar.belowTop x || Scalar.belowTop (-x)

/-- The upper bound of the variable, if it has one: `+∞` is none. -/
def upperBound (entry : VariableEntry α) : Option α :=
  entry.upper.filter fun x => Scalar.belowTop x || !Scalar.belowTop (-x)

end VariableEntry

/-! ### Reading -/

section Reading

open Json (Reader Members Field)

variable {α : Type} [Json.NumberText α]

namespace VariableEntry

/-- The parts of a variable. Each bound may be missing. -/
def members : Members (Option String × Option (Option α) × Option (Option α))
    (String × Option α × Option α) :=
  .and (.one (.required "name" Reader.string)) <|
    .and (.one (.withDefault "lower" (Reader.optional Reader.number) none))
      (.one (.withDefault "upper" (Reader.optional Reader.number) none))

/-- Reads a variable. -/
def read : Reader (VariableEntry α) := do
  let (name, lower, upper) ← Reader.record members
  return ⟨name, lower, upper⟩

end VariableEntry

/-- Reads a sum: a list of pairs of a name and a weight. -/
def NamedTerms.read : Reader (NamedTerms α) :=
  Reader.list <| Reader.tuple <|
    .and (.one (.required "0" Reader.string)) (.one (.required "1" Reader.number))

namespace ConstraintEntry

/-- The parts of a constraint. -/
def members : Members (Option (NamedTerms α) × Option Relation × Option α)
    (NamedTerms α × Relation × α) :=
  .and (.one (.required "terms" NamedTerms.read)) <|
    .and (.one (.required "relation" Relation.read)) (.one (.required "rhs" Reader.number))

/-- Reads a constraint. -/
def read : Reader (ConstraintEntry α) := do
  let (terms, relation, rhs) ← Reader.record members
  return ⟨terms, relation, rhs⟩

end ConstraintEntry

namespace ObjectiveEntry

/-- The parts of an objective. Without terms it is the zero function. -/
def members : Members (Option Goal × Option (NamedTerms α)) (Goal × NamedTerms α) :=
  .and (.one (.required "goal" Goal.read)) (.one (.withDefault "terms" NamedTerms.read []))

/-- Reads an objective. -/
def read : Reader (ObjectiveEntry α) := do
  let (goal, terms) ← Reader.record members
  return ⟨goal, terms⟩

end ObjectiveEntry

namespace ModelFile

/-- The parts of a model. Constraints and objective may be missing. -/
def members : Members
    (Option (List (VariableEntry α)) × Option (List (ConstraintEntry α)) ×
      Option (Option (ObjectiveEntry α)))
    (List (VariableEntry α) × List (ConstraintEntry α) × Option (ObjectiveEntry α)) :=
  .and (.one (.required "variables" (Reader.list VariableEntry.read))) <|
    .and (.one (.withDefault "constraints" (Reader.list ConstraintEntry.read) []))
      (.one (.withDefault "objective" (Reader.optional ObjectiveEntry.read) none))

/-- Reads a model. -/
def read : Reader (ModelFile α) := do
  let (vars, constraints, objective) ← Reader.record members
  return ⟨vars, constraints, objective⟩

end ModelFile

end Reading

/-! ### Loading -/

/-- What an invalid part of a model belongs to. -/
inductive LoadContext where
  | variableNamed (name : String)
  | constraintAt (index : Nat)
  | objective
  deriving DecidableEq, Repr

/-- The words that name a part of a model. -/
def LoadContext.text : LoadContext → String
  | variableNamed name => s!"variable '{name}'"
  | constraintAt index => s!"constraint {index}"
  | objective => "objective"

/-- The reasons why a text cannot be loaded. -/
inductive LoadError (α : Type) where
  /-- The text cannot be read. -/
  | unreadable (problem : Json.Problem)
  /-- A name is declared twice. -/
  | duplicateVariable (name : String)
  /-- A name is used that is not declared. -/
  | unknownVariable (name : String)
  /-- A part of the model is invalid. -/
  | invalid (context : LoadContext) (error : ModelError α)
  deriving DecidableEq, Repr

/-- The sentence that reports why a text cannot be loaded. What is wrong with a text that cannot be
read is put in the words of its reader. -/
def LoadError.message (wording : Json.Problem → String) : LoadError Float → String
  | unreadable problem => s!"Invalid model file: {wording problem}"
  | duplicateVariable name => s!"Variable '{name}' is declared twice"
  | unknownVariable name => s!"Unknown variable '{name}'"
  | invalid context error => s!"{context.text}: {error.message}"

namespace ModelFile

variable {α : Type} [Scalar α]

/-- The handle of the variable with a name, among those declared so far. -/
def idOf? (vars : List (Variable α)) (name : String) : Option VariableId :=
  (vars.findIdx? fun v => v.name == name).map VariableId.mk

/-- The sum with handles in the place of names. -/
def resolve (vars : List (Variable α)) (terms : NamedTerms α) :
    Except (LoadError α) (Terms α) :=
  terms.mapM fun (name, weight) =>
    match idOf? vars name with
    | some id => .ok (id, weight)
    | none => .error (.unknownVariable name)

/-- A part of a model, where a defect is reported with the part. -/
def inContext {β : Type} (context : LoadContext) (part : Except (ModelError α) β) :
    Except (LoadError α) β := part.mapError (.invalid context)

/-- Adds a variable as described. -/
def declare (p : Program α) (entry : VariableEntry α) : Except (LoadError α) (Program α) :=
  match idOf? p.vars entry.name with
  | some _ => .error (.duplicateVariable entry.name)
  | none => inContext (.variableNamed entry.name)
    (p.register entry.name entry.lowerBound entry.upperBound).accepted

/-- Adds the constraint with a number as described. -/
def constrain (p : Program α) (numbered : ConstraintEntry α × Nat) :
    Except (LoadError α) (Program α) := do
  let (entry, index) := numbered
  let terms ← resolve p.vars entry.terms
  inContext (.constraintAt index) do
    (p.addConstraint (← Constraint.ofTerms terms entry.relation entry.rhs)).accepted

/-- Sets the objective as described, or the zero function. -/
def aim (p : Program α) (described : Option (ObjectiveEntry α)) :
    Except (LoadError α) (Program α) := do
  let objective ← match described with
    | some entry => do
      let terms ← resolve p.vars entry.terms
      inContext .objective (Objective.ofTerms entry.goal terms)
    | none => .ok Objective.empty
  inContext .objective (p.setObjective objective).accepted

/-- The program that a description stands for: first the variables, then the constraints, then the
objective. -/
def toProgram (solver : Solver α) (file : ModelFile α) : Except (LoadError α) (Program α) := do
  let declared ← file.vars.foldlM declare (Program.empty solver)
  let constrained ← file.constraints.zipIdx.foldlM constrain declared
  aim constrained file.objective

/-- The program that a text describes. -/
def parse [Json.NumberText α] (solver : Solver α) (text : String) :
    Except (LoadError α) (Program α) := do
  let file ← (Json.Reader.document read text).mapError LoadError.unreadable
  file.toProgram solver

end ModelFile

end LinProg
