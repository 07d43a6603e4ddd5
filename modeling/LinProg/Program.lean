import LinProg.Dictionary.Solve
import LinProg.StandardForm.OfModel

/-!
Linear programs under construction.

* `Program`: the variables, constraints and objective given so far, a solver, and the solution
  of the current model where it is known.
* `Reply`: what an operation gives, an answer or an error, with the program that it leaves.
* `Program.addVariable`, `register`, `addConstraint`, `setObjective`, `withSolver`: changes.
  Each one checks first and then drops the known solution.
* `Program.build`: the canonical form of the model.
* `Program.solve`, `status`, `value`, `values`, `objectiveValue`: queries. The known solution is
  taken out of the program and put back.
* `Operation`, `Answer`, `Program.perform`: everything that can be asked of a program, as one
  function.
-/

namespace LinProg

/-- The solution of a model in its canonical columns, with the map that reads them. -/
structure Solved (α : Type) where
  solution : Solution α
  columns : ColumnMap α
  deriving DecidableEq

/-- A linear program under construction. -/
structure Program (α : Type) where
  vars : List (Variable α)
  constraints : List (Constraint α)
  objective : Option (Objective α)
  solver : Solver α
  /-- The solution of the model as it is now, where a query has asked for it. -/
  solved : Option (Solved α)
  deriving DecidableEq

/-- What an operation gives: an answer, or what is wrong, and the program that it leaves. -/
abbrev Reply (α β : Type) := Except (ModelError α) β × Program α

namespace Reply

variable {α β γ : Type}

/-- The reply with its answer in another form. -/
def map (reply : Reply α β) (form : β → γ) : Reply α γ := (reply.1.map form, reply.2)

/-- The program that is left, unless there is an error. -/
def accepted (reply : Reply α β) : Except (ModelError α) (Program α) :=
  reply.1.map fun _ => reply.2

end Reply

namespace Program

variable {α : Type} [Scalar α]

omit [Scalar α] in
/-- The program without variables, constraints and objective. -/
def empty (solver : Solver α) : Program α := ⟨[], [], none, solver, none⟩

/-! ### Changes -/

omit [Scalar α] in
/-- The same model with the same solver, whose solution is not known. -/
def unsolved (p : Program α) : Program α := { p with solved := none }

omit [Scalar α] in
/-- The same model, to be solved by another solver. -/
def withSolver (p : Program α) (solver : Solver α) : Program α :=
  { p.unsolved with solver := solver }

omit [Scalar α] in
/-- Adds a variable and gives its handle. -/
def addVariable (p : Program α) (v : Variable α) : VariableId × Program α :=
  (⟨p.vars.length⟩, { p.unsolved with vars := p.vars ++ [v] })

/-- Adds the variable with a name and bounds, if the bounds are valid, and gives its handle. -/
def register (p : Program α) (name : String) (lower upper : Option α) : Reply α VariableId :=
  match Variable.ofBounds name lower upper with
  | .error error => (.error error, p)
  | .ok v =>
    let (id, p) := p.addVariable v
    (.ok id, p)

omit [Scalar α] in
/-- Refuses a sum with a variable that the program does not have. -/
def checkKnown (p : Program α) (terms : Terms α) : Except (ModelError α) Unit :=
  match terms.firstUnknown? p.vars.length with
  | some id => .error (.unknownVariable id.index)
  | none => .ok ()

omit [Scalar α] in
/-- Adds a constraint on variables of the program. -/
def addConstraint (p : Program α) (c : Constraint α) : Reply α Unit :=
  match p.checkKnown c.terms with
  | .error error => (.error error, p)
  | .ok () => (.ok (), { p.unsolved with constraints := p.constraints ++ [c] })

omit [Scalar α] in
/-- Sets the objective, a sum of variables of the program. -/
def setObjective (p : Program α) (objective : Objective α) : Reply α Unit :=
  match p.checkKnown objective.terms with
  | .error error => (.error error, p)
  | .ok () => (.ok (), { p.unsolved with objective := some objective })

/-! ### The model -/

omit [Scalar α] in
/-- The variable with a handle, if the program has it. -/
def variableAt? (p : Program α) (id : VariableId) : Option (Variable α) := p.vars[id.index]?

omit [Scalar α] in
/-- Whether the solution of the model is known. -/
def isSolved (p : Program α) : Bool := p.solved.isSome

/-- Brings a model into canonical form and reports its size. -/
def buildModel (vars : List (Variable α)) (constraints : List (Constraint α))
    (objective? : Option (Objective α)) :
    Traced α (Except (ModelError α) (StandardForm α × ColumnMap α)) := do
  let built := StandardForm.ofModel vars constraints objective?
  if let .ok (form, map) := built then
    Traced.emit (.standardFormBuilt vars.length map.numColumns form.numRows form.constant)
  return built

/-- The canonical form of the model, with a report of its size. -/
def build (p : Program α) : Traced α (Except (ModelError α) (StandardForm α × ColumnMap α)) :=
  buildModel p.vars p.constraints p.objective

/-! ### Queries -/

/-- The solution of the model with the map of its columns. A known solution is used again. -/
def solvedModel (p : Program α) : Traced α (Reply α (Solved α)) :=
  let taken := p.unsolved
  match p.solved with
  | some solved => return (.ok solved, { taken with solved := some solved })
  | none => do
    match ← taken.build with
    | .error error => return (.error error, taken)
    | .ok (form, columns) => do
      let solution ← taken.solver.solve form
      Traced.emit (.modelSolved solution.status solution.objective solution.pivots)
      let solved : Solved α := ⟨solution, columns⟩
      return (.ok solved, { taken with solved := some solved })

omit [Scalar α] in
/-- Reads an answer off what a query gives. -/
def read {β γ : Type} (query : Traced α (Reply α β)) (answer : β → Except Fault γ) :
    Traced α (Reply α γ) := do
  match ← query with
  | (.error error, p) => return (.error error, p)
  | (.ok b, p) => return (.ok (← answer b), p)

/-- Reads an answer off the solution of the model. -/
def ask {β : Type} (p : Program α) (answer : Solved α → Except Fault β) : Traced α (Reply α β) :=
  read p.solvedModel answer

/-- The solution of the model in its canonical columns, with the objective to be maximized. -/
def solve (p : Program α) : Traced α (Reply α (Solution α)) :=
  p.ask fun solved => return solved.solution

/-- Whether the model has an optimum and, if not, why. -/
def status (p : Program α) : Traced α (Reply α Status) :=
  p.ask fun solved => return solved.solution.status

/-- The value of a variable of the program at the optimum, if there is one. -/
def value (p : Program α) (id : VariableId) : Traced α (Reply α (Option α)) :=
  if p.vars.length ≤ id.index then return (.error (.unknownVariable id.index), p)
  else p.ask fun solved => do
    let some x := solved.solution.values | return none
    solved.columns.value id x

/-- The values of all variables at the optimum, if there is one. -/
def values (p : Program α) : Traced α (Reply α (Option (Coords α))) :=
  p.ask fun solved => solved.solution.values.mapM solved.columns.values

/-- The value of a canonical objective in the direction of the model's own goal. -/
def oriented (p : Program α) (x : Extended α) : Extended α :=
  match p.objective.map Objective.goal with
  | some .minimize => x.neg
  | _ => x

/-- The optimal value in the model's own goal: none when infeasible, and an infinity when
unbounded. -/
def objectiveValue (p : Program α) : Traced α (Reply α (Option (Extended α))) :=
  p.ask fun solved => return match solved.solution.status with
    | .infeasible => none
    | _ => some (p.oriented solved.solution.objective)

end Program

/-! ### Operations -/

/-- What can be asked of a program. -/
inductive Operation (α : Type) where
  | register (name : String) (lower upper : Option α)
  | registerNonnegative (name : String)
  | registerFree (name : String)
  | addConstraint (c : Constraint α)
  | setObjective (objective : Objective α)
  | withSolver (solver : Solver α)
  | build
  | solve
  | status
  | value (id : VariableId)
  | values
  | objectiveValue

/-- Whether the operation changes the model or its solver. The others are queries. -/
def Operation.isChange {α : Type} : Operation α → Bool
  | register .. | registerNonnegative _ | registerFree _ | addConstraint _ | setObjective _
  | withSolver _ => true
  | build | solve | status | value _ | values | objectiveValue => false

/-- What an operation answers. -/
inductive Answer (α : Type) where
  | registered (id : VariableId)
  | changed
  | built (form : StandardForm α) (columns : ColumnMap α)
  | solution (solution : Solution α)
  | status (status : Status)
  | value (x : Option α)
  | values (xs : Option (Coords α))
  | objectiveValue (best : Option (Extended α))
  deriving DecidableEq

namespace Program

variable {α : Type} [Scalar α]

/-- Carries out an operation. -/
def perform (p : Program α) : Operation α → Traced α (Reply α (Answer α))
  | .register name lower upper => return (p.register name lower upper).map .registered
  | .registerNonnegative name =>
    let (id, p) := p.addVariable (.nonnegative name)
    return (.ok (.registered id), p)
  | .registerFree name =>
    let (id, p) := p.addVariable (.free name)
    return (.ok (.registered id), p)
  | .addConstraint c => return (p.addConstraint c).map fun _ => .changed
  | .setObjective objective => return (p.setObjective objective).map fun _ => .changed
  | .withSolver solver => return (.ok .changed, p.withSolver solver)
  | .build => do return ((← p.build).map fun (form, columns) => .built form columns, p)
  | .solve => read p.solve fun solution => return .solution solution
  | .status => read p.status fun status => return .status status
  | .value id => read (p.value id) fun x => return .value x
  | .values => read p.values fun xs => return .values xs
  | .objectiveValue => read p.objectiveValue fun best => return .objectiveValue best

end Program

end LinProg
