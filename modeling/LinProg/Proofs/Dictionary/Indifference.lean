import LinProg.Proofs.Dictionary.Certificates
import LinProg.Proofs.Dictionary.History

/-!
The objective does not leak into the feasibility decision, whatever the arithmetic does.

* `Dictionary.withObjective`: the dictionary with another objective. Adding the auxiliary variable
  forgets the objective, and dropping the variable puts back whatever was saved.
* `Dictionary.alike_phaseOneWithin`: so runs of phase one from dictionaries that differ in their
  objective alone come out alike, up to the objective that is put back.
* `Dictionary.Offset`: dictionaries that differ in their constant alone. `Offset.pivot`,
  `Offset.restore` and `Offset.simplexWithin` keep it: a constant is added to and never looked at.
* `Solution.SameUpTo`: solutions with the same status, values and number of pivots.
* `objective_indifferent`: both for the programs that are solved.
-/

namespace LinProg

variable {α : Type} [Scalar α]

/-- The solutions have the same status, values and number of pivots, and the values of the objective
at optimal points are related by `R`. -/
structure Solution.SameUpTo (R : α → α → Prop) (s s' : Solution α) : Prop where
  status_eq : s'.status = s.status
  values_eq : s'.values = s.values
  pivots_eq : s'.pivots = s.pivots
  objective : s.status = .feasible → ∃ x y, s.objective = .value x ∧ s'.objective = .value y ∧ R x y

namespace Dictionary

open StandardForm

variable {d d' r : Dictionary α} {c : Coords α} {k : α} {e l limit : ℕ}

/-! ### Another objective -/

/-- The dictionary with another objective. -/
def withObjective (d : Dictionary α) (c : Coords α) (k : α) : Dictionary α :=
  { d with c := c, constant := k }

lemma lowestRow?_withObjective : (d.withObjective c k).lowestRow? = d.lowestRow? := rfl

omit [Scalar α] in
lemma numVariables_withObjective : (d.withObjective c k).numVariables = d.numVariables := rfl

/-- Adding the auxiliary variable overwrites both the costs and the constant. -/
lemma withAuxiliary_withObjective : (d.withObjective c k).withAuxiliary = d.withAuxiliary := rfl

/-- Programs that differ in their objective alone have such dictionaries. -/
lemma ofStandardForm_eq_withObjective {form form' : StandardForm α} {tolerance : α}
    (ha : form'.a = form.a) (hb : form'.b = form.b) (hc : form'.numColumns = form.numColumns) :
    ofStandardForm form' tolerance = (ofStandardForm form tolerance).withObjective
      (ofStandardForm form' tolerance).c (ofStandardForm form' tolerance).constant := by
  have hrows : form'.numRows = form.numRows := congrArg Array.size hb
  dsimp only [ofStandardForm, withObjective]
  rw [hc, hrows, ha, hb]

/-- What a verdict of phase one leaves behind: the very same dictionary where there is no feasible
basic solution, and related ones where there is. -/
def SameVerdict (Q : Dictionary α → Dictionary α → Prop) (v v' : Bool × Dictionary α) : Prop :=
  v'.1 = v.1 ∧ if v.1 then Q v.2 v'.2 else v'.2 = v.2

/-- Phase one does not look at the objective: its runs from two objectives come out alike, up to
what the objectives that are put back are related by. -/
theorem alike_phaseOneWithin {Q : Dictionary α → Dictionary α → Prop}
    (hgiven : Q d (d.withObjective c k))
    (hrestore : ∀ r : Dictionary α, Q (r.restore d) (r.restore (d.withObjective c k)))
    (limit : ℕ) :
    Alike (SameVerdict Q) (d.phaseOneWithin limit).result
      ((d.withObjective c k).phaseOneWithin limit).result := by
  rw [phaseOneWithin, phaseOneWithin, lowestRow?_withObjective, withAuxiliary_withObjective,
    numVariables_withObjective]
  cases d.lowestRow? with
  | none => exact .value ⟨rfl, hgiven⟩
  | some row =>
      refine .bind_same fun _ => .bind_same fun entered => .bind_same fun last => ?_
      obtain ⟨outcome, reached⟩ := last
      dsimp only
      split
      · exact .bind_same fun _ => .value ⟨rfl, rfl⟩
      · refine .bind_same fun driven => ?_
        -- only here the saved objective is read, to be put back
        have hdrop : Alike Q (driven.withoutAuxiliary d)
            (driven.withoutAuxiliary (d.withObjective c k)) := by
          rw [withoutAuxiliary, withoutAuxiliary, numVariables_withObjective]
          cases driven.isBasic d.numVariables with
          | true => exact .fault _
          | false => exact .value (hrestore driven)
        exact .bind hdrop fun ready ready' hready => .value ⟨rfl, hready⟩

/-- From any two objectives the same roles, rows, right-hand sides and number of pivots are
reached. -/
lemma alike_phaseOneWithin_withObjective (d : Dictionary α) (c : Coords α) (k : α) (limit : ℕ) :
    Alike (SameVerdict fun ready ready' => ∃ c k, ready' = ready.withObjective c k)
      (d.phaseOneWithin limit).result ((d.withObjective c k).phaseOneWithin limit).result :=
  alike_phaseOneWithin ⟨c, k, rfl⟩ (fun _ => ⟨_, _, rfl⟩) limit

/-! ### Another constant -/

/-- The second dictionary is the first one with another constant, which is related by `R` to the
constant of the first. -/
def Offset (R : α → α → Prop) (d d' : Dictionary α) : Prop :=
  ∃ k, R d.constant k ∧ d' = d.withObjective d.c k

section Offset

variable {R : α → α → Prop} (hadd : ∀ {x y} (z : α), R x y → R (x + z) (y + z))
include hadd

/-- A pivot adds the same number to both constants. -/
lemma Offset.pivot (h : Offset R d d') (e l : ℕ) :
    Alike (Offset R) (d.pivot e l).result (d'.pivot e l).result := by
  obtain ⟨k, hk, rfl⟩ := h
  refine .bind_same fun _ => .bind (.refl (.ok ())) fun _ _ _ => .value ?_
  exact ⟨k + d.c.coord e * d.solvedRhs e l, hadd _ hk, rfl⟩

omit hadd in
/-- A choice is made by the costs, the rows and the right-hand sides. -/
lemma Offset.choice_eq (h : Offset R d d') : d'.choice = d.choice := by
  obtain ⟨k, -, rfl⟩ := h
  rfl

/-- The loop comes to the same end. -/
lemma Offset.simplexWithin (h : Offset R d d') (limit : ℕ) :
    Alike (fun last last' => last'.1 = last.1 ∧ Offset R last.2 last'.2)
      (d.simplexWithin limit).result (d'.simplexWithin limit).result := by
  fun_induction Dictionary.simplexWithin limit d generalizing d' with
  | case1 limit d hchoice =>
      rw [Dictionary.simplexWithin, h.choice_eq, hchoice]
      exact .value ⟨rfl, h⟩
  | case2 limit d e hchoice =>
      rw [Dictionary.simplexWithin, h.choice_eq, hchoice]
      exact .bind_same fun _ => .value ⟨rfl, h⟩
  | case3 d e l hchoice =>
      rw [Dictionary.simplexWithin, h.choice_eq, hchoice]
      exact .fault _
  | case4 d e l hchoice limit ih =>
      rw [Dictionary.simplexWithin, h.choice_eq, hchoice]
      exact .bind (h.pivot hadd e l) fun next next' hnext => ih next hnext

/-- Putting back a saved cost adds the same number to both constants. -/
lemma addCost_offset (cost : α) {x y : α} (h : R x y) (i : ℕ) :
    (r.addCost cost (c, y) i).1 = (r.addCost cost (c, x) i).1 ∧
      R (r.addCost cost (c, x) i).2 (r.addCost cost (c, y) i).2 := by
  rw [addCost, addCost]
  cases r.isBasic i with
  | true => exact ⟨rfl, hadd _ h⟩
  | false => exact ⟨rfl, h⟩

/-- Putting back all saved costs adds the same number to both constants. -/
lemma foldl_addCost_offset (costs : ℕ → α) {x y : α} (h : R x y) (is : List ℕ) :
    (is.foldl (fun objective i => r.addCost (costs i) objective i) (c, y)).1 =
        (is.foldl (fun objective i => r.addCost (costs i) objective i) (c, x)).1 ∧
      R (is.foldl (fun objective i => r.addCost (costs i) objective i) (c, x)).2
        (is.foldl (fun objective i => r.addCost (costs i) objective i) (c, y)).2 := by
  induction is generalizing c x y with
  | nil => exact ⟨rfl, h⟩
  | cons i is ih =>
      obtain ⟨hcosts, hconstant⟩ := addCost_offset (r := r) (c := c) hadd (costs i) h i
      rw [List.foldl_cons, List.foldl_cons, ← Prod.mk.eta (p := r.addCost (costs i) (c, y) i),
        hcosts]
      exact ih hconstant

/-- The objectives that are put back differ as the saved ones do. -/
lemma Offset.restore (h : Offset R d d') (r : Dictionary α) :
    Offset R (r.restore d) (r.restore d') := by
  obtain ⟨k, hk, rfl⟩ := h
  obtain ⟨hcosts, hconstant⟩ := foldl_addCost_offset (r := r.truncate d.numVariables)
    (c := Coords.zeros d.numVariables) hadd d.c.coord hk d.nonbasics
  exact ⟨_, hconstant, congrArg (fun costs => (r.restore d).withObjective costs
    ((r.truncate d.numVariables).restoredObjective (d.withObjective d.c k)).2) hcosts⟩

omit hadd in
/-- At the end the same point is shown, with the values of the objective related. -/
lemma Offset.sameUpTo_optimum (h : Offset R d d') :
    Solution.SameUpTo R d.optimum d'.optimum := by
  obtain ⟨k, hk, rfl⟩ := h
  exact ⟨rfl, rfl, rfl, fun _ => ⟨d.constant, k, rfl, rfl, hk⟩⟩

/-- Both phases come to the same answer, up to the value of the objective. -/
theorem Offset.solveWithin (h : Offset R d d') (limit₁ limit₂ : ℕ) :
    Alike (fun answer answer' => Solution.SameUpTo R answer.1 answer'.1)
      (d.solveWithin limit₁ limit₂).result (d'.solveWithin limit₁ limit₂).result := by
  have hphase : Alike (SameVerdict (Offset R)) (d.phaseOneWithin limit₁).result
      (d'.phaseOneWithin limit₁).result := by
    obtain ⟨k, hk, rfl⟩ := h
    exact alike_phaseOneWithin ⟨k, hk, rfl⟩ (Offset.restore hadd ⟨k, hk, rfl⟩) limit₁
  refine .bind hphase fun verdict verdict' hverdict => ?_
  obtain ⟨found, ready⟩ := verdict
  obtain ⟨found', ready'⟩ := verdict'
  obtain ⟨hfound, hready⟩ := hverdict
  obtain rfl : found = found' := hfound.symm
  cases found with
  | false =>
      obtain rfl : ready' = ready := hready
      exact .value ⟨rfl, rfl, rfl, fun hstatus => absurd hstatus (by simp [Solution.infeasible])⟩
  | true =>
      refine .bind (Offset.simplexWithin hadd hready limit₂) fun last last' hlast => ?_
      obtain ⟨outcome, last⟩ := last
      obtain ⟨outcome', last'⟩ := last'
      obtain ⟨houtcome, hoffset⟩ := hlast
      obtain rfl : outcome = outcome' := houtcome.symm
      cases outcome with
      | optimal =>
          exact .bind (.refl (.ok ())) fun _ _ _ => .value hoffset.sameUpTo_optimum
      | unbounded =>
          obtain ⟨k, -, rfl⟩ := hoffset
          exact .value
            ⟨rfl, rfl, rfl, fun hstatus => absurd hstatus (by simp [Solution.unbounded])⟩

/-- The solver comes to the same answer for programs that differ in their constant alone. -/
lemma alike_solve {form : StandardForm α} {constant : α} (hR : R form.constant constant)
    (tolerance : α) :
    (∀ limit₁ limit₂,
      Alike (fun answer answer' => Solution.SameUpTo R answer.1 answer'.1)
        ((ofStandardForm form tolerance).solveWithin limit₁ limit₂).result
        ((ofStandardForm { form with constant := constant } tolerance).solveWithin
          limit₁ limit₂).result) ∧
    Alike (Solution.SameUpTo R) ((⟨tolerance⟩ : Solver α).solve form).result
      ((⟨tolerance⟩ : Solver α).solve { form with constant := constant }).result := by
  have hoffset : Offset R (ofStandardForm form tolerance)
      (ofStandardForm { form with constant := constant } tolerance) := ⟨constant, hR, rfl⟩
  have halike := hoffset.solveWithin hadd
  exact ⟨halike, .bind (halike _ _) fun answer answer' hanswer => .value hanswer⟩

end Offset

/-! ### The programs that are solved -/

/-- The objective does not leak into the feasibility decision. For programs with the same rows and
right-hand sides and with any objectives, phase one breaks off alike or comes to the same verdict
within any number of pivots, so that it also never ends for both or for neither. Where it finds a
feasible basic solution it leaves the same roles, rows, right-hand sides and number of pivots. For
programs that differ in their constant alone, the solver comes to the same status, values and number
of pivots. Over the rationals the values of the objective then differ as the constants do. -/
theorem objective_indifferent (α : Type) [Scalar α] :
    (∀ (form form' : StandardForm α) (tolerance : α), form.WellShaped → form'.WellShaped →
      form'.a = form.a → form'.b = form.b →
      let same (v v' : Bool × Dictionary α) : Prop := v'.1 = v.1 ∧ (v.1 = true →
        v'.2.roles = v.2.roles ∧ v'.2.a = v.2.a ∧ v'.2.b = v.2.b ∧ v'.2.pivots = v.2.pivots)
      (∀ limit, Alike same ((ofStandardForm form tolerance).phaseOneWithin limit).result
        ((ofStandardForm form' tolerance).phaseOneWithin limit).result) ∧
      Alike same (ofStandardForm form tolerance).phaseOne.result
        (ofStandardForm form' tolerance).phaseOne.result) ∧
    (∀ (form : StandardForm α) (constant tolerance : α),
      let shifted := { form with constant := constant }
      (∀ limit₁ limit₂,
        Alike (fun answer answer' => answer.1.SameUpTo (fun _ _ => True) answer'.1)
          ((ofStandardForm form tolerance).solveWithin limit₁ limit₂).result
          ((ofStandardForm shifted tolerance).solveWithin limit₁ limit₂).result) ∧
      Alike (Solution.SameUpTo fun _ _ => True) ((⟨tolerance⟩ : Solver α).solve form).result
        ((⟨tolerance⟩ : Solver α).solve shifted).result) ∧
    ∀ (form : StandardForm ℚ) (constant tolerance : ℚ),
      let shifted := { form with constant := constant }
      (∀ limit₁ limit₂,
        Alike (fun answer answer' =>
            answer.1.SameUpTo (fun x y => y - x = constant - form.constant) answer'.1)
          ((ofStandardForm form tolerance).solveWithin limit₁ limit₂).result
          ((ofStandardForm shifted tolerance).solveWithin limit₁ limit₂).result) ∧
      Alike (Solution.SameUpTo fun x y => y - x = constant - form.constant)
        ((⟨tolerance⟩ : Solver ℚ).solve form).result
        ((⟨tolerance⟩ : Solver ℚ).solve shifted).result := by
  refine ⟨fun form form' tolerance hform hform' ha hb => ?_, fun form constant tolerance => ?_,
    fun form constant tolerance => ?_⟩
  · have hcolumns : form'.numColumns = form.numColumns := by
      rw [← hform'.2.2, ← hform.2.2, ha]
    rw [ofStandardForm_eq_withObjective ha hb hcolumns]
    intro same
    have halike (limit : ℕ) : Alike same
        ((ofStandardForm form tolerance).phaseOneWithin limit).result
        (((ofStandardForm form tolerance).withObjective (ofStandardForm form' tolerance).c
          (ofStandardForm form' tolerance).constant).phaseOneWithin limit).result := by
      refine (alike_phaseOneWithin_withObjective _ _ _ limit).mono ?_
      rintro ⟨found, ready⟩ ⟨found', ready'⟩ ⟨hfound, hready⟩
      refine ⟨hfound, fun htrue => ?_⟩
      obtain rfl : found = true := htrue
      obtain ⟨c, k, rfl⟩ : ∃ c k, ready' = ready.withObjective c k := hready
      exact ⟨rfl, rfl, rfl, rfl⟩
    exact ⟨halike, halike _⟩
  · exact alike_solve (fun _ _ => trivial) trivial tolerance
  · exact alike_solve (R := fun x y => y - x = constant - form.constant)
      (fun z h => (add_sub_add_right_eq_sub _ _ z).trans h) rfl tolerance

/-- Doubles are such an arithmetic: a cost that is no number and an infinite constant change nothing
in the verdict on a program that needs phase one. Over the rationals, adding two to the constant of
a program adds two to its optimum. -/
theorem objective_indifferent_between :
    let rows : DenseMatrix Float := ⟨2, 1, #[-1, 1]⟩
    let plain := ofStandardForm ⟨rows, #[-1, 3], #[2], 5⟩ 0.5
    let wild := ofStandardForm ⟨rows, #[-1, 3], #[0 / 0], 1 / 0⟩ 0.5
    (∃ ready ready', (plain.phaseOneWithin 9).result = .ok (true, ready) ∧
      (wild.phaseOneWithin 9).result = .ok (true, ready') ∧
      ready'.roles = #[.basic, .nonbasic, .basic] ∧ ready'.b = ready.b ∧ ready'.pivots = 2) ∧
    ∃ s, ((⟨1 / 10⟩ : Solver ℚ).solve { between 1 3 with constant := 7 }).result = .ok s ∧
      s.values = some #[3] ∧ s.objective = .value 13 := by
  intro rows plain wild
  refine ⟨?_, ?_⟩
  · have hrun : (plain.phaseOneWithin 9).result.map
        (fun (found, ready) => (found, ready.roles, ready.pivots)) =
        .ok (true, #[.basic, .nonbasic, .basic], 2) := by decide +kernel
    have halike := ((objective_indifferent Float).1 ⟨rows, #[-1, 3], #[2], 5⟩
      ⟨rows, #[-1, 3], #[0 / 0], 1 / 0⟩ 0.5 ⟨rfl, rfl, rfl⟩ ⟨rfl, rfl, rfl⟩ rfl rfl).1 9
    cases hplain : (plain.phaseOneWithin 9).result with
    | error fault =>
        rw [hplain] at hrun
        cases hrun
    | ok verdict =>
        obtain ⟨found, ready⟩ := verdict
        obtain ⟨⟨found', ready'⟩, hwild, hfound, hready⟩ := halike.exists_of_eq_ok hplain
        rw [hplain] at hrun
        obtain ⟨rfl, hrest⟩ := Prod.mk.inj (Except.ok.inj hrun)
        obtain ⟨hroles, hpivots⟩ := Prod.mk.inj hrest
        obtain rfl : found' = true := hfound
        obtain ⟨hroles', -, hb, hpivots'⟩ := hready rfl
        exact ⟨ready, ready', rfl, hwild, hroles'.trans hroles, hb, hpivots'.trans hpivots⟩
  · have hgiven : ((⟨1 / 10⟩ : Solver ℚ).solve (between 1 3)).result =
        .ok (.feasible #[3] 11 3) := by decide +kernel
    have halike := ((objective_indifferent ℚ).2.2 (between 1 3) 7 (1 / 10)).2
    obtain ⟨s, hs, hsame⟩ := halike.exists_of_eq_ok hgiven
    obtain ⟨x, y, hx, hy, hxy⟩ := hsame.objective rfl
    obtain rfl : 11 = x := Extended.value.inj hx
    have hvalue : y = 13 :=
      calc y = y - 11 + 11 := (sub_add_cancel y 11).symm
        _ = 7 - 5 + 11 := congrArg (· + 11) hxy
        _ = 13 := by norm_num
    exact ⟨s, hs, hsame.values_eq, hvalue ▸ hy⟩

end Dictionary

end LinProg
