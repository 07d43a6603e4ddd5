import LinProg.Proofs.Dictionary.History
import LinProg.Proofs.Json.Forms
import LinProg.Proofs.Solver

/-!
The JSON forms of the solutions that the solver gives.

* `Solution.WrittenReadBack`: what has to hold of the numbers that are written of a solution. It
  says nothing of an infinite objective, for which no number is written.
* `Solution.refuses_unbounded`: the form of an answer without a greatest value is refused by the
  reader of solutions, which asks for a number as the objective.
* `Solver.document_solution`: every other answer is read back as it was.
-/

namespace LinProg

open Json Json.Reader Json.Members

variable {α : Type} [NumberText α]

namespace Solution

/-- The numbers of the solution are read back where they are written. -/
structure WrittenReadBack (s : Solution α) : Prop where
  values : ∀ v ∈ s.values, v.NumbersReadBack
  objective : ∀ x, s.objective = .value x → Json.ReadsBack x
  pivots : FitsWord s.pivots

/-- A solution with a finite objective is read back if its numbers are. -/
lemma reads_of_value {s : Solution α} {x : α} (h : s.WrittenReadBack)
    (hx : s.objective = .value x) : Reads read s.write s :=
  reads_write ⟨h.values, ⟨x, hx, h.objective x hx⟩, h.pivots⟩

/-- Nothing is written for an infinite objective, and nothing is no number. The status and the
values in front of it are read, and what is behind it is never reached. -/
lemma refuses_unbounded (pivots : ℕ) :
    Refuses (read : Reader (Solution α)) (unbounded pivots : Solution α).write .misshapen := by
  have hnone : Reads (Reader.optional (Coords.read : Reader (Coords α))) null none :=
    reads_optional_none
  have hobjective := stops_here (.required "objective_value" (number : Reader α))
    (one (.required "pivots" natural)) refuses_number_null [("pivots", writeNatural pivots)]
  have hvalues := stops_later (.optional "values" (Coords.read : Reader (Coords α))) hnone
    hobjective (by simp)
  have hstatus := stops_later (.required "status" Status.read)
    (Status.reads_write .unbounded) hvalues (by simp)
  exact (refuses_record hstatus).bind _

end Solution

namespace Solver

variable [Scalar α] {solver : Solver α} {form : StandardForm α} {s : Solution α}

omit [NumberText α] in
/-- The three solutions that a solver gives. -/
lemma solution_cases (h : (solver.solve form).result = .ok s) :
    (∃ values objective pivots, s = .feasible values objective pivots) ∨
      (∃ pivots, s = .infeasible pivots) ∨ ∃ pivots, s = .unbounded pivots := by
  obtain ⟨⟨solution, last⟩, hsolve, h⟩ := Traced.result_bind_eq_ok.mp h
  obtain rfl : solution = s := Except.ok.inj h
  obtain ⟨-, rfl⟩ | ⟨ready, outcome, -, -, rfl⟩ := Dictionary.solveWithin_cases hsolve
  · exact .inr (.inl ⟨_, rfl⟩)
  · cases outcome with
    | optimal => exact .inl ⟨_, _, _, rfl⟩
    | unbounded => exact .inr (.inr ⟨_, rfl⟩)

/-- Whatever the arithmetic, an answer of the solver whose numbers are read back is read back from
its own form, with its status, its values, its objective and the number of its pivots, unless the
objective has no greatest value: that answer is refused. -/
theorem document_solution (h : (solver.solve form).result = .ok s) (hnumbers : s.WrittenReadBack) :
    document Solution.read (String.ofList s.write) =
      if s.status = .unbounded then .error .misshapen else .ok s := by
  obtain ⟨values, objective, pivots, rfl⟩ | ⟨pivots, rfl⟩ | ⟨pivots, rfl⟩ := solution_cases h
  · exact (Solution.reads_of_value hnumbers rfl).document_eq
  · exact (Solution.reads_of_value hnumbers rfl).document_eq
  · exact (Solution.refuses_unbounded pivots).document_eq

/-- A program of one column with one row, in doubles. -/
def singleRow (cell bound : Float) : StandardForm Float := ⟨⟨1, 1, #[cell]⟩, #[bound], #[2], 5⟩

/-- A column that is at most three, one that is at most minus one, and one that is at least one have
the three answers. The first two are read back, the last one is not. -/
theorem document_solution_singleRow :
    document (Solution.read : Reader (Solution Float))
      (String.ofList (.feasible #[3] 11 1 : Solution Float).write) = .ok (.feasible #[3] 11 1) ∧
    document (Solution.read : Reader (Solution Float))
      (String.ofList (.infeasible 1 : Solution Float).write) = .ok (.infeasible 1) ∧
    document (Solution.read : Reader (Solution Float))
      (String.ofList (.unbounded 2 : Solution Float).write) = .error .misshapen := by
  have hfeasible : (standard.solve (singleRow 1 3)).result = .ok (.feasible #[3] 11 1) := by
    decide +kernel
  have hinfeasible : (standard.solve (singleRow 1 (-1))).result = .ok (.infeasible 1) := by
    decide +kernel
  have hunbounded : (standard.solve (singleRow (-1) (-1))).result = .ok (.unbounded 2) := by
    decide +kernel
  refine ⟨?_, ?_, ?_⟩
  · refine document_solution hfeasible ⟨?_, ?_, by decide⟩
    · rintro v ⟨⟩
      decide +kernel
    · rintro x ⟨⟩
      decide +kernel
  · refine document_solution hinfeasible ⟨?_, ?_, by decide⟩
    · rintro v ⟨⟩
    · rintro x ⟨⟩
      decide +kernel
  · refine document_solution hunbounded ⟨?_, ?_, by decide⟩
    · rintro v ⟨⟩
    · rintro x ⟨⟩

/-- In exact numbers, too, the answer to a program without a greatest value is not read back, in
whichever way numbers are written and read. -/
theorem unbounded_solution_lost :
    ((⟨1 / 10⟩ : Solver ℚ).solve (StandardForm.above 1)).result = .ok (.unbounded 2) ∧
    ∀ _ : NumberText ℚ, document (Solution.read : Reader (Solution ℚ))
      (String.ofList (.unbounded 2 : Solution ℚ).write) ≠ .ok (.unbounded 2) := by
  refine ⟨by decide +kernel, fun _ h => ?_⟩
  rw [(Solution.refuses_unbounded 2).document_eq] at h
  cases h

end Solver

end LinProg
