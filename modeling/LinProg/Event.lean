import LinProg.Solution

/-!
What the library reports while it works.

* `Event`: the steps that are reported, with the numbers that belong to them.
* `Event.level`, `Event.message`: how much detail a step is, and its sentence.
-/

namespace LinProg

/-- A reported step. -/
inductive Event (α : Type) where
  /-- A model was brought into canonical form. -/
  | standardFormBuilt (vars columns rows : Nat) (constant : α)
  /-- A model was solved. -/
  | modelSolved (status : Status) (objective : Extended α) (pivots : Nat)
  /-- Phase one starts because the right-hand side of a row is negative. -/
  | phaseOneStarted (row : Nat) (rhs : α)
  /-- Phase one ended away from zero. -/
  | phaseOneInfeasible (objective : α)
  /-- Phase one ended at zero with the auxiliary variable still basic. -/
  | auxiliaryDegenerate (entering : Nat)
  /-- Phase one ended with a feasible dictionary. -/
  | phaseOneFeasible (pivots : Nat) (objective : α)
  /-- Two variables changed their roles. -/
  | pivoted (pivots entering leaving : Nat) (objective : α)
  /-- The objective grows without end along a variable. -/
  | unboundedAlong (entering : Nat)
  /-- An optimal dictionary was reached. -/
  | optimumReached (pivots : Nat) (objective : α)
  deriving DecidableEq

/-- How much detail a step is. -/
inductive Level where
  | debug
  | trace
  deriving DecidableEq, Repr

/-- The name of a level. -/
def Level.name : Level → String
  | debug => "DEBUG"
  | trace => "TRACE"

/-- The name of a status in reports. -/
def Status.title : Status → String
  | feasible => "Feasible"
  | infeasible => "Infeasible"
  | unbounded => "Unbounded"

namespace Event

/-- Single pivots are traces and all other steps are for debugging. -/
def level {α : Type} : Event α → Level
  | pivoted .. | auxiliaryDegenerate .. => .trace
  | _ => .debug

/-- The sentence that reports a step. -/
def message : Event Float → String
  | standardFormBuilt vars columns rows constant =>
    s!"built standard form: variables: {vars}, columns: {columns}, rows: {rows}, " ++
      s!"constant: {Decimal.plain constant}"
  | modelSolved status objective pivots =>
    s!"solved model: status: {status.title}, objective: {objective.text}, pivots: {pivots}"
  | phaseOneStarted row rhs => s!"phase one: most negative row {row} ({Decimal.plain rhs})"
  | phaseOneInfeasible objective =>
    s!"phase one: infeasible, auxiliary objective: {Decimal.plain objective}"
  | auxiliaryDegenerate entering => s!"phase one: x0 degenerate, entering: {entering}"
  | phaseOneFeasible pivots objective =>
    s!"phase one: feasible after {pivots} pivots, objective: {Decimal.plain objective}"
  | pivoted pivots entering leaving objective =>
    s!"pivot {pivots}: entering: {entering}, leaving: {leaving}, " ++
      s!"objective: {Decimal.plain objective}"
  | unboundedAlong entering => s!"objective unbounded along variable {entering}"
  | optimumReached pivots objective =>
    s!"solved in {pivots} pivots, objective: {Decimal.plain objective}"

/-- The line of a step in a log: its level and its sentence. -/
def line (event : Event Float) : String := s!"{event.level.name} {event.message}"

end Event

end LinProg
