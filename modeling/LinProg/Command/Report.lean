import LinProg.Json.Forms
import LinProg.Program

/-!
The texts that the commands print.

* `Report`, `Report.ofProgram`: the solution of a model with the names of its variables.
* `Report.json`, `Report.pretty`: a report in its two formats.
* `standardFormText`: the canonical form of a model with the columns of its variables.
* `Summary`, `Summary.ofProgram`, `Summary.text`: the sizes of a model.
-/

namespace LinProg.Command

/-! ### Indented JSON -/

/-- The spaces in front of a line of a nested value. -/
def indent (depth : Nat) : List Char := List.replicate (2 * depth) ' '

/-- Items on lines of their own between two brackets. -/
def block (opening closing : Char) (depth : Nat) (items : List (List Char)) : List Char :=
  if items.isEmpty then [opening, closing]
  else
    let lines := items.map fun item => indent (depth + 1) ++ item
    opening :: '\n' :: [',', '\n'].intercalate lines ++ '\n' :: indent depth ++ [closing]

/-- A member of an object. -/
def memberText (name : String) (value : List Char) : List Char :=
  Json.quote name ++ ": ".toList ++ value

/-! ### Solutions -/

/-- The solution of a model. -/
structure Report where
  status : Status
  /-- The optimal value in the model's own goal. -/
  objective : Option (Extended Float)
  pivots : Nat
  /-- The variables with their values, where the model has an optimum. -/
  values : List (String × Float)

namespace Report

/-- The report of a model. -/
def ofProgram (p : Program Float) : Traced Float (Except (ModelError Float) Report) := do
  match ← p.solve with
  | (.error error, _) => return .error error
  | (.ok solution, p) => do
    let (objective, p) ← p.objectiveValue
    let (values, p) ← p.values
    let known : Coords Float := (values.toOption.join).getD #[]
    return .ok
      { status := solution.status
        objective := objective.toOption.join
        pivots := solution.pivots
        values := (p.vars.map Variable.name).zip known.toList }

/-- A variable with its value. -/
def valueText (depth : Nat) (named : String × Float) : List Char :=
  block '{' '}' depth
    [memberText "name" (Json.quote named.1), memberText "value" (Json.writeNumber named.2)]

/-- The report in JSON. An objective that is not finite is left out. -/
def json (r : Report) : String :=
  let objective : Option Float := r.objective.bind Extended.number?
  String.ofList <| block '{' '}' 0
    [memberText "status" r.status.write,
      memberText "objective" (Json.writeOptional Json.writeNumber objective),
      memberText "pivots" (Json.writeNatural r.pivots),
      memberText "values" (block '[' ']' 1 (r.values.map (valueText 2)))]

/-- A line of the table of variables. -/
def tableLine (named : String × Float) : String :=
  s!"  {Decimal.padRight 20 named.1} {Decimal.padLeft 12 (Decimal.fixed 6 named.2)}\n"

/-- The report as text. -/
def pretty (r : Report) : String :=
  match r.status with
  | .feasible =>
    let objective := match r.objective with
      | some value => s!"Objective: {value.text}\n"
      | none => ""
    s!"Status: OPTIMAL\n{objective}Pivots: {r.pivots}\n\nVariables:\n" ++
      String.join (r.values.map tableLine)
  | .infeasible => "Status: INFEASIBLE\nNo solution exists that satisfies all constraints.\n"
  | .unbounded => "Status: UNBOUNDED\nThe problem has no finite optimal solution.\n"

/-- The report in a format; every format but JSON is text. -/
def text (r : Report) (format : String) : String :=
  if format = "json" then r.json ++ "\n" else r.pretty

end Report

/-! ### Canonical forms -/

/-- The canonical form of a model, and how each variable is expressed through its columns. -/
def standardFormText (vars : List (Variable Float)) (form : StandardForm Float)
    (map : ColumnMap Float) : String :=
  let column (v : Variable Float) (s : Substitution Float) : String := s!"  {v.name} = {s.text}\n"
  form.text ++ "\nColumns:\n" ++ String.join (List.zipWith column vars map.substitutions)

/-! ### Sizes -/

/-- The name of a goal in listings. -/
def goalTitle : Goal → String
  | .maximize => "Maximize"
  | .minimize => "Minimize"

/-- The sizes of a model. -/
structure Summary where
  vars : Nat
  free : Nat
  constraints : Nat
  le : Nat
  ge : Nat
  eq : Nat
  objective : Option (Goal × Nat)
  deriving DecidableEq, Repr

namespace Summary

/-- Counts the parts of a model. -/
def ofProgram (p : Program Float) : Summary :=
  let count (r : Relation) : Nat := p.constraints.countP fun c => c.relation = r
  { vars := p.vars.length
    free := p.vars.countP Variable.isFree
    constraints := p.constraints.length
    le := count .le
    ge := count .ge
    eq := count .eq
    objective := p.objective.map fun o => (o.goal, o.terms.length) }

/-- The sizes as text. -/
def text (s : Summary) : String :=
  let objective := match s.objective with
    | some (goal, terms) => s!"  objective: {goalTitle goal} over {terms} terms\n"
    | none => ""
  s!"  {s.vars} variables ({s.free} free)\n" ++
    s!"  {s.constraints} constraints ({s.le} <=, {s.ge} >=, {s.eq} =)\n" ++ objective

end Summary

end LinProg.Command
