import LinProg.Proofs.Dictionary.EngineInPlace

/-!
What a run of both phases asks of the pivot, whatever the arithmetic does.

* `Stage`, `Dictionary.Visits`: where a run stands, and the dictionaries that it comes to.
* `Stage.request?`: the pivot that is asked for at a stage, if one is.
* `Visits.grows`: every dictionary on the way has the shape of one, with the auxiliary variable
  while it is needed.
* `Visits.legalPivot`: every pivot that is asked for is legal.
* `meets_phaseOneWithin`, `meets_solveWithin`: the engine pivots only where it is asked to. Apart
  from using up its pivots, it breaks off only where the auxiliary variable is still basic when it
  is to be dropped (`Remains`).
* `requests_legal`: both for the dictionary of a program, where the engine in place finds every
  index that it asks for.
-/

namespace LinProg

variable {α : Type} [Scalar α]

/-! ### Stages -/

/-- The pivot of a choice, as the entering and the leaving variable. -/
def Choice.request? : Choice → Option (ℕ × ℕ)
  | pivot e l => some (e, l)
  | optimal | unbounded _ => none

lemma Choice.request?_eq_some_iff {choice : Choice} {e l : ℕ} :
    choice.request? = some (e, l) ↔ choice = .pivot e l := by
  cases choice <;> simp [request?]

/-- Where a run of both phases stands. -/
inductive Stage where
  /-- The dictionary is looked at for the first time. -/
  | given
  /-- The auxiliary variable has been added and is to enter in the place of a row. -/
  | attached (row : ℕ)
  /-- The loop of phase one is running. -/
  | minimizing
  /-- The loop has ended close to zero, and the auxiliary variable is to become nonbasic. -/
  | expelling
  /-- The auxiliary variable is to be dropped. -/
  | dropping
  /-- The loop of phase two is running. -/
  | maximizing
  deriving DecidableEq

namespace Stage

/-- The stage after a pivot. -/
def next : Stage → Stage
  | attached _ => minimizing
  | expelling => dropping
  | stage => stage

/-- How many auxiliary variables there are. -/
def extra : Stage → ℕ
  | given | maximizing => 0
  | attached _ | minimizing | expelling | dropping => 1

@[simp] lemma extra_next (stage : Stage) : stage.next.extra = stage.extra := by
  cases stage <;> rfl

lemma next_ne_attached (stage : Stage) (row : ℕ) : stage.next ≠ attached row := by
  cases stage <;> simp [next]

/-- The pivot that is asked for at a stage, as the entering and the leaving variable. -/
def request? (stage : Stage) (r : Dictionary α) : Option (ℕ × ℕ) :=
  match stage with
  | given | dropping => none
  | attached row => some (r.numVariables - 1, row)
  | minimizing | maximizing => r.choice.request?
  | expelling =>
    if r.isBasic (r.numVariables - 1) then
      (r.steepest? (r.numVariables - 1)).map fun j => (j, r.numVariables - 1)
    else none

end Stage

namespace Dictionary

variable {d r r' : Dictionary α} {stage : Stage} {e l row limit : ℕ}

/-- The dictionaries that a run of both phases from `d` comes to, each with the stage that the run
is at. The loops may make any number of pivots. -/
inductive Visits (d : Dictionary α) : Stage → Dictionary α → Prop where
  | given : Visits d .given d
  | pass (h : d.lowestRow? = none) : Visits d .maximizing d
  | attach {row : ℕ} (h : d.lowestRow? = some row) : Visits d (.attached row) d.withAuxiliary
  | pivot {stage : Stage} {r r' : Dictionary α} {e l : ℕ} (h : Visits d stage r)
      (hrequest : stage.request? r = some (e, l)) (hpivot : (r.pivot e l).result = .ok r') :
      Visits d stage.next r'
  | close {r : Dictionary α} (h : Visits d .minimizing r)
      (hdone : Stage.minimizing.request? r = none)
      (hclose : ¬ r.tolerance ≤ Scalar.abs r.constant) : Visits d .expelling r
  | keep {r : Dictionary α} (h : Visits d .expelling r)
      (hdone : Stage.expelling.request? r = none) : Visits d .dropping r
  | drop {r r' : Dictionary α} (h : Visits d .dropping r) (hdrop : r.withoutAuxiliary d = .ok r') :
      Visits d .maximizing r'

/-! ### What every stage keeps -/

/-- Every dictionary on the way has the shape of one, with an auxiliary variable where the stage has
one. -/
theorem Visits.grows (hd : d.WellFormed) (h : d.Visits stage r) : Grows d stage.extra r := by
  induction h with
  | given => exact .refl hd
  | pass _ => exact .refl hd
  | attach _ => exact grows_withAuxiliary hd
  | pivot _ _ hpivot ih =>
      rw [Stage.extra_next]
      exact ih.trans (grows_of_pivot ih.wellFormed hpivot)
  | close _ _ _ ih => exact ih
  | keep _ _ ih => exact ih
  | drop _ hdrop ih => exact grows_of_withoutAuxiliary ih hdrop

/-- The tolerance stays. -/
lemma Visits.tolerance_eq (h : d.Visits stage r) : r.tolerance = d.tolerance := by
  induction h with
  | given => rfl
  | pass _ => rfl
  | attach _ => rfl
  | pivot _ _ hpivot ih =>
      obtain ⟨-, rfl⟩ := pivot_result_eq_ok.mp hpivot
      exact ih
  | close _ _ _ ih => exact ih
  | keep _ _ ih => exact ih
  | drop _ hdrop ih =>
      obtain ⟨-, rfl⟩ := withoutAuxiliary_eq_ok_iff.mp hdrop
      exact ih

/-- The auxiliary variable is to enter only right after it was added, in the place of the lowest
row. -/
lemma Visits.of_attached (h : d.Visits stage r) (hstage : stage = .attached row) :
    r = d.withAuxiliary ∧ d.lowestRow? = some row := by
  cases h with
  | attach h =>
      obtain rfl := Stage.attached.inj hstage
      exact ⟨rfl, h⟩
  | pivot => exact absurd hstage (Stage.next_ne_attached _ row)
  | _ => cases hstage

/-- While it is there, the auxiliary variable is the last one. -/
lemma Visits.last_eq (hd : d.WellFormed) (h : d.Visits stage r) (hextra : stage.extra = 1) :
    r.numVariables - 1 = d.numVariables := by
  rw [(h.grows hd).numVariables_eq, hextra, Nat.add_sub_cancel]

/-! ### Legal requests -/

/-- A legal pivot reports itself and gives the exchange. -/
lemma LegalPivot.pivot_eq (h : r.LegalPivot e l) :
    r.pivot e l = ⟨[.pivoted (r.pivots + 1) e l (r.exchange e l).constant],
      .ok (r.exchange e l)⟩ := by
  have hcheck : r.checkPivot e l = .ok () := checkPivot_eq_ok.mpr h
  rw [pivot, hcheck]
  rfl

section Requests

variable [Scalar.TellsZero α]

/-- Every pivot that is asked for is legal: the auxiliary variable has the coefficient minus one in
every row, the loop asks for positive coefficients, and the coefficient that expels the auxiliary
variable is of more than the tolerance. -/
theorem Visits.legalPivot (hd : d.WellFormed) (ht : 0 ≤ d.tolerance) (h : d.Visits stage r)
    (hrequest : stage.request? r = some (e, l)) : r.LegalPivot e l := by
  cases stage with
  | given => cases hrequest
  | dropping => cases hrequest
  | attached row =>
      obtain ⟨rfl, hlow⟩ := h.of_attached rfl
      obtain ⟨rfl, rfl⟩ := Prod.mk.inj (Option.some.inj hrequest)
      rw [numVariables_withAuxiliary, Nat.add_sub_cancel]
      exact legalPivot_withAuxiliary hd (isBasic_of_lowestRow?_eq_some hlow)
  | minimizing => exact legalPivot_of_choice_eq (Choice.request?_eq_some_iff.mp hrequest)
  | maximizing => exact legalPivot_of_choice_eq (Choice.request?_eq_some_iff.mp hrequest)
  | expelling =>
      rw [Stage.request?] at hrequest
      split at hrequest
      · rename_i hbasic
        obtain ⟨j, hsteep, hj⟩ := Option.map_eq_some_iff.mp hrequest
        obtain ⟨rfl, rfl⟩ := Prod.mk.inj hj
        exact legalPivot_of_steepest?_eq_some (h.tolerance_eq ▸ ht) hbasic hsteep
      · cases hrequest

/-! ### The engine asks for nothing else -/

/-- The event is no pivot, or one that the run asked for, with the number of pivots and the
objective after it. -/
def Requested (d : Dictionary α) : Event α → Prop
  | .pivoted count e l value => ∃ stage r, d.Visits stage r ∧ stage.request? r = some (e, l) ∧
      r.pivots + 1 = count ∧ (r.exchange e l).constant = value
  | _ => True

/-- What can go wrong where every pivot is legal: the auxiliary variable is still basic when it is
to be dropped, or the loop uses up its pivots. -/
inductive Remains (d : Dictionary α) : Fault → Prop where
  | auxiliaryBasic {r : Dictionary α} (h : d.Visits .dropping r)
      (hbasic : r.isBasic d.numVariables) : Remains d .auxiliaryBasic
  | pivotLimit : Remains d .pivotLimit

omit [Scalar.TellsZero α] in
/-- Dropping the auxiliary variable fails only where it is basic. -/
lemma Visits.meets_withoutAuxiliary (h : d.Visits .dropping r) :
    (monadLift (r.withoutAuxiliary d) : Traced α (Dictionary α)).Meets d.Requested d.Remains
      (d.Visits .maximizing) := by
  refine .lift (fun fault hfault => ?_) fun r' hdrop => h.drop hdrop
  rw [withoutAuxiliary, Fault.unless] at hfault
  split at hfault
  · cases hfault
  · rename_i hbasic
    obtain rfl := Except.error.inj hfault
    exact .auxiliaryBasic h (by simpa using hbasic)

variable (hd : d.WellFormed) (ht : 0 ≤ d.tolerance)
include hd ht

/-- A pivot that is asked for leads on to the next stage. -/
lemma Visits.meets_pivot (h : d.Visits stage r) (hrequest : stage.request? r = some (e, l)) :
    (r.pivot e l).Meets d.Requested d.Remains (d.Visits stage.next) := by
  have hlegal := h.legalPivot hd ht hrequest
  have hpivot : (r.pivot e l).result = .ok (r.exchange e l) :=
    pivot_result_eq_ok.mpr ⟨hlegal, rfl⟩
  rw [hlegal.pivot_eq]
  refine ⟨fun event hevent => ?_, fun _ hfault => ?_, fun r' hr' => ?_⟩
  · obtain rfl := List.mem_singleton.mp hevent
    exact ⟨stage, r, h, hrequest, rfl, rfl⟩
  · cases hfault
  · obtain rfl := Except.ok.inj hr'
    exact h.pivot hrequest hpivot

/-- A run of the loop stays at its stage, up to a dictionary in which nothing is asked for. -/
lemma Visits.meets_simplexWithin (h : d.Visits stage r)
    (hstage : stage = .minimizing ∨ stage = .maximizing) (limit : ℕ) :
    (r.simplexWithin limit).Meets d.Requested d.Remains
      fun last => d.Visits stage last.2 ∧ stage.request? last.2 = none := by
  have hnext : stage.next = stage := by
    obtain rfl | rfl := hstage <;> rfl
  have hrequest (r : Dictionary α) : stage.request? r = r.choice.request? := by
    obtain rfl | rfl := hstage <;> rfl
  fun_induction simplexWithin limit r with
  | case1 limit r hchoice => exact .pure ⟨h, by rw [hrequest, hchoice]; rfl⟩
  | case2 limit r e hchoice =>
      exact .bind (.emit trivial) fun _ _ => .pure ⟨h, by rw [hrequest, hchoice]; rfl⟩
  | case3 r e l hchoice => exact .fail .pivotLimit
  | case4 r e l hchoice limit ih =>
      have hasked : stage.request? r = some (e, l) := by
        rw [hrequest, hchoice]
        rfl
      refine .bind (h.meets_pivot hd ht hasked) fun next hvisits => ?_
      rw [hnext] at hvisits
      exact ih next hvisits

/-- Expelling the auxiliary variable is the pivot that is asked for, or nothing. -/
lemma Visits.meets_expelAuxiliary (h : d.Visits .expelling r) :
    r.expelAuxiliary.Meets d.Requested d.Remains (d.Visits .dropping) := by
  rw [expelAuxiliary]
  split
  · rename_i hbasic
    split
    · rename_i j hsteep
      have hasked : Stage.expelling.request? r = some (j, r.numVariables - 1) := by
        simp [Stage.request?, hbasic, hsteep]
      exact .bind (.emit trivial) fun _ _ => h.meets_pivot hd ht hasked
    · rename_i hsteep
      exact .pure (h.keep (by simp [Stage.request?, hbasic, hsteep]))
  · rename_i hbasic
    exact .pure (h.keep (by simp [Stage.request?, hbasic]))

/-- Phase one pivots where it is asked to, and ends at the loop of phase two or at its own. -/
theorem meets_phaseOneWithin (limit : ℕ) :
    (d.phaseOneWithin limit).Meets d.Requested d.Remains
      fun verdict => d.Visits (if verdict.1 then .maximizing else .minimizing) verdict.2 := by
  rw [phaseOneWithin]
  split
  · rename_i row hlow
    refine .bind (.emit trivial) fun _ _ => ?_
    have hasked : (Stage.attached row).request? d.withAuxiliary = some (d.numVariables, row) := by
      simp [Stage.request?]
    refine .bind ((Visits.attach hlow).meets_pivot hd ht hasked) fun entered hentered => ?_
    refine .bind (hentered.meets_simplexWithin hd ht (.inl rfl) limit) fun last hlast => ?_
    obtain ⟨hvisits, hdone⟩ := hlast
    split
    rename_i outcome reached
    split
    · exact .bind (.emit trivial) fun _ _ => .pure hvisits
    · rename_i hclose
      have hexpelling := hvisits.close hdone hclose
      refine .bind (hexpelling.meets_expelAuxiliary hd ht) fun driven hdriven => ?_
      refine .bind hdriven.meets_withoutAuxiliary fun ready hready => ?_
      exact .bind (.emit trivial) fun _ _ => .pure hready
  · rename_i hlow
    exact .pure (Visits.pass (Option.eq_none_iff_forall_ne_some.mpr hlow))

/-- Both phases pivot where they are asked to. -/
theorem meets_solveWithin (limit₁ limit₂ : ℕ) :
    (d.solveWithin limit₁ limit₂).Meets d.Requested d.Remains
      fun answer => ∃ stage, d.Visits stage answer.2 := by
  refine .bind (meets_phaseOneWithin hd ht limit₁) fun verdict hverdict => ?_
  obtain ⟨found, ready⟩ := verdict
  cases found with
  | false => exact .pure ⟨_, hverdict⟩
  | true =>
      refine .bind (hverdict.meets_simplexWithin hd ht (.inr rfl) limit₂) fun last hlast => ?_
      obtain ⟨outcome, last⟩ := last
      cases outcome with
      | unbounded => exact .pure ⟨_, hlast.1⟩
      | optimal => exact .bind (.emit trivial) fun _ _ => .pure ⟨_, hlast.1⟩

end Requests

/-! ### The dictionary of a program -/

/-- The engine never breaks a precondition of the pivot. Whatever dictionary a run of both phases
comes to has the shape of one, so that all its cells can be read, and a pivot that is asked for
there is legal: it has a nonbasic entering and a basic leaving variable and a coefficient that does
not pass for zero. A run makes no other pivots, however many it may make, and apart from using them
up it can break off only because the auxiliary variable is still basic when it is to be dropped.
On a well-shaped program this is the run in place, in which every index is checked. -/
theorem requests_legal [Scalar.TellsZero α] (form : StandardForm α) (tolerance : α)
    (ht : 0 ≤ tolerance) :
    (∀ stage r, (ofStandardForm form tolerance).Visits stage r →
      r.WellFormed ∧
      (∀ i < r.numVariables, ∀ j < r.numVariables, r.a.entry i j = .ok (r.a.get i j)) ∧
      ∀ e l, stage.request? r = some (e, l) →
        e < r.numVariables ∧ r.isNonbasic e ∧ l < r.numVariables ∧ r.isBasic l ∧
          (r.a.get l e != 0) = true ∧ (r.pivot e l).result = .ok (r.exchange e l) ∧
          InPlace.exchange r e l = .ok (r.exchange e l)) ∧
    (∀ limit₁ limit₂,
      (∀ count e l value,
        .pivoted count e l value ∈
          ((ofStandardForm form tolerance).solveWithin limit₁ limit₂).events →
        ∃ stage r, (ofStandardForm form tolerance).Visits stage r ∧ stage.request? r = some (e, l) ∧
          r.pivots + 1 = count ∧ (r.exchange e l).constant = value) ∧
      ∀ fault, ((ofStandardForm form tolerance).solveWithin limit₁ limit₂).result = .error fault →
        fault = .auxiliaryBasic ∨ fault = .pivotLimit) ∧
    (form.WellShaped → ∀ limit₁ limit₂,
      InPlace.run form tolerance limit₁ limit₂ =
          (ofStandardForm form tolerance).solveWithin limit₁ limit₂ ∧
        ∀ fault, (InPlace.run form tolerance limit₁ limit₂).result = .error fault →
          fault = .auxiliaryBasic ∨ fault = .pivotLimit) := by
  have hd := wellFormed_ofStandardForm form tolerance
  have hfault : ∀ limit₁ limit₂ fault,
      ((ofStandardForm form tolerance).solveWithin limit₁ limit₂).result = .error fault →
      fault = .auxiliaryBasic ∨ fault = .pivotLimit := by
    intro limit₁ limit₂ fault hfault
    cases (meets_solveWithin hd ht limit₁ limit₂).fault fault hfault with
    | auxiliaryBasic h hbasic => exact .inl rfl
    | pivotLimit => exact .inr rfl
  refine ⟨fun stage r hvisits => ?_, fun limit₁ limit₂ => ?_, fun hform limit₁ limit₂ => ?_⟩
  · have hr := (hvisits.grows hd).wellFormed
    refine ⟨hr, fun i hi j hj => hr.entry_eq_ok hi hj, fun e l hrequest => ?_⟩
    have hlegal := hvisits.legalPivot hd ht hrequest
    exact ⟨isNonbasic_lt hlegal.isNonbasic, hlegal.isNonbasic, isBasic_lt hlegal.isBasic,
      hlegal.isBasic, hlegal.ne_zero, pivot_result_eq_ok.mpr ⟨hlegal, rfl⟩,
      hr.exchangeInPlace_eq hlegal.isNonbasic hlegal.isBasic⟩
  · have hmeets := meets_solveWithin hd ht limit₁ limit₂
    exact ⟨fun count e l value hevent => hmeets.events _ hevent, hfault limit₁ limit₂⟩
  · have hrun := runInPlace_eq hform tolerance limit₁ limit₂
    exact ⟨hrun, hrun ▸ hfault limit₁ limit₂⟩

/-- Doubles are such an arithmetic. In a program with a coefficient that is no number, the second
pivot of phase one is made in place after that coefficient has spread, and is legal all the same. -/
theorem requests_legal_blurred :
    ∃ stage r, (ofStandardForm blurred 0.5).Visits stage r ∧ stage.request? r = some (0, 3) ∧
      r.pivots = 1 ∧ r.WellFormed ∧ r.isNonbasic 0 ∧ r.isBasic 3 ∧ (r.a.get 3 0 != 0) = true ∧
      InPlace.exchange r 0 3 = .ok (r.exchange 0 3) ∧
      .pivoted 2 0 3 (-0.5) ∈ (InPlace.run blurred 0.5 9 9).events := by
  have ht : (0 : Float) ≤ 0.5 := by decide +kernel
  have hform : blurred.WellShaped := ⟨rfl, rfl, rfl⟩
  have hevent : .pivoted 2 0 3 (-0.5) ∈ ((ofStandardForm blurred 0.5).solveWithin 9 9).events := by
    decide +kernel
  obtain ⟨hlegal, hrun, hplace⟩ := requests_legal blurred 0.5 ht
  obtain ⟨stage, r, hvisits, hrequest, hcount, -⟩ := (hrun 9 9).1 _ _ _ _ hevent
  obtain ⟨hwell, -, hpivots⟩ := hlegal stage r hvisits
  obtain ⟨-, henter, -, hleave, hne, -, hexchange⟩ := hpivots 0 3 hrequest
  rw [← (hplace hform 9 9).1] at hevent
  exact ⟨stage, r, hvisits, hrequest, Nat.succ.inj hcount, hwell, henter, hleave, hne, hexchange,
    hevent⟩

end Dictionary

end LinProg
