import LinProg.Command.Run
import LinProg.Proofs.Dictionary.History
import LinProg.Proofs.ModelFile
import LinProg.Proofs.Printing
import LinProg.Proofs.StandardForm.Size

/-!
The commands agree on every file.

* `SizesAgree`, `exists_build`: what is counted in a program that is loaded is what is printed of
  its canonical form, and gives the size of that.
* `Report.Prints`, `report_cases`: a report prints what the queries give.
* `exitCode`: the exit code of a request. `commands_agree` says for which files each request
  succeeds, and what is printed there.
-/

namespace LinProg.Command

open Program (replyOf)

variable {wording : Wording} {p : Program Float} {described : ModelFile Float}
  {content : FileContent} {form : StandardForm Float} {map : ColumnMap Float}

/-- What is loaded from a file is loaded from a description. -/
lemma load_eq_ok (h : load wording content = .ok p) :
    ∃ text described, content = .ok text ∧
      Json.Reader.document ModelFile.read text = .ok described ∧ described.Loads p := by
  cases content with
  | error failure => cases h
  | ok text =>
      obtain ⟨described, hread, hloads⟩ := ModelFile.parse_eq_ok (mapError_eq_ok.mp h)
      exact ⟨text, described, rfl, hread, hloads⟩

/-! ### Sizes -/

/-- The lines of a check that counts so many free variables. -/
def checkLines (file : String) (p : Program Float) (objective : Objective Float) (free : ℕ) :
    List String :=
  let count (r : Relation) : ℕ := p.constraints.countP fun c => c.relation = r
  [s!"✓ {file} is valid",
    s!"  {p.vars.length} variables ({free} free)",
    s!"  {p.constraints.length} constraints ({count .le} <=, {count .ge} >=, {count .eq} =)",
    s!"  objective: {goalTitle objective.goal} over {objective.terms.length} terms"]

/-- The line of a variable with its expression. -/
def columnLine (name expression : String) : String := s!"  {name} = {expression}"

/-- What a check of a program prints and what the request for its canonical form does. There is a
line for each variable, with its expression. The free variables that are counted are those whose
expressions are differences of columns, and what is counted gives the size of the form, with the
number of variables between two finite bounds. -/
structure SizesAgree (file : String) (p : Program Float) (form : StandardForm Float)
    (expressions : List String) (checked listed : String) : Prop where
  checked_eq : ∃ objective, p.objective = some objective ∧
    checked = printed (checkLines file p objective (expressions.countP isDifference))
  listed_eq : listed = form.text ++
    printed ("" :: "Columns:" :: List.zipWith columnLine (p.vars.map Variable.name) expressions)
  length_eq : expressions.length = p.vars.length
  differences_eq : expressions.map isDifference = p.vars.map Variable.isFree
  numColumns_eq : form.numColumns = p.vars.length + expressions.countP isDifference
  numRows_eq : form.numRows =
    p.vars.countP (fun v => v.lower.any Scalar.isFinite && v.upper.any Scalar.isFinite) +
      (p.constraints.countP (fun c => c.relation = .le) +
        p.constraints.countP (fun c => c.relation = .ge) +
        2 * p.constraints.countP (fun c => c.relation = .eq))

/-- What is found to be the same, one by one, is counted to be as many. -/
lemma countP_eq_of_map_eq {β γ : Type} {f : β → Bool} {g : γ → Bool} {l : List β} {l' : List γ}
    (h : l.map f = l'.map g) : l.countP f = l'.countP g := by
  have hcount : ∀ {δ : Type} (f : δ → Bool) (l : List δ), l.countP f = (l.map f).countP id :=
    fun f l => (List.countP_map (p := id)).symm
  rw [hcount, h, ← hcount]

/-- A bound is finite where there is one that is. -/
lemma isBoxed_eq (v : Variable Float) :
    v.isBoxed = (v.lower.any Scalar.isFinite && v.upper.any Scalar.isFinite) := by
  rw [Variable.isBoxed, Variable.finiteLower, Variable.finiteUpper, Option.isSome_filter,
    Option.isSome_filter]

/-- A check prints its lines. -/
lemma check_eq_printed {objective : Objective Float} (h : p.objective = some objective)
    (file : String) :
    s!"✓ {file} is valid\n" ++ (Summary.ofProgram p).text =
      printed (checkLines file p objective (p.vars.countP Variable.isFree)) := by
  simp [Summary.text, Summary.ofProgram, checkLines, h, toString_eq_self, String.append_assoc]

/-- A canonical form is printed with a line for each variable. -/
lemma standardFormText_eq_printed (vars : List (Variable Float)) (form : StandardForm Float)
    (map : ColumnMap Float) :
    standardFormText vars form map =
      form.text ++ printed ("" :: "Columns:" :: List.zipWith columnLine (vars.map Variable.name)
        (map.substitutions.map Substitution.text)) := by
  rw [← String.toList_inj]
  simp [standardFormText, printed, columnLine, toString_eq_self, List.map_zipWith, List.zipWith_map]

/-- The variables that a check counts as free are those whose expressions are differences: it asks
for infinities, and the canonical form for finite bounds. -/
lemma map_isDifference (h : ∀ v ∈ p.vars, v.Valid) :
    ((ColumnMap.ofVariables p.vars).substitutions.map Substitution.text).map isDifference =
      p.vars.map Variable.isFree := by
  rw [List.map_map, ColumnMap.map_isFree h, ← ColumnMap.map_isSplit_allot p.vars 0]
  exact List.map_congr_left fun s _ => s.isDifference_text

/-- A program that is loaded has a canonical form, over the columns of its variables. -/
theorem exists_build (h : described.Loads p) :
    ∃ form map, p.build.result = .ok (.ok (form, map)) ∧
      map.substitutions.length = p.vars.length ∧
      (∀ s ∈ map.substitutions, ∀ c ∈ s.columns, c < form.numColumns) ∧
      ∀ file, SizesAgree file p form (map.substitutions.map Substitution.text)
        (s!"✓ {file} is valid\n" ++ (Summary.ofProgram p).text)
        (standardFormText p.vars form map) := by
  have hsound := h.session.sound
  obtain ⟨objective, hobjective⟩ := h.objective_eq
  obtain ⟨form, hform, hcolumns, hrows⟩ := StandardForm.exists_ofModel_size
    (fun c hc => Program.checkKnown_eq_ok_iff.mp (hsound.constraints_known c hc))
    (Program.checkKnown_eq_ok_iff.mp (hsound.objective_known objective hobjective))
  rw [← hobjective] at hform
  have hlength : (ColumnMap.ofVariables p.vars).substitutions.length = p.vars.length :=
    ColumnMap.length_fst_allot p.vars 0
  have hdifferences := map_isDifference h.valid
  have hfree := countP_eq_of_map_eq hdifferences
  refine ⟨form, ColumnMap.ofVariables p.vars, Program.build_result_eq hform, hlength,
    fun s hs c hc => ?_, fun file =>
    { checked_eq := ⟨objective, hobjective, ?_⟩
      listed_eq := standardFormText_eq_printed p.vars form _
      length_eq := (List.length_map _).trans hlength
      differences_eq := hdifferences
      numColumns_eq := ?_
      numRows_eq := ?_ }⟩
  · rw [hcolumns, ← ColumnMap.numColumns_ofVariables]
    exact ColumnMap.lt_numColumns hs hc
  · rw [hfree]
    exact check_eq_printed hobjective file
  · rw [hfree, ColumnMap.countP_isFree h.valid]
    exact hcolumns
  · rw [hrows, List.countP_congr fun v _ => by rw [isBoxed_eq]]

/-! ### Solutions -/

/-- What is printed for the solution of a program. Where it is optimal, each variable is listed with
its value; elsewhere the list is empty and the objective left out. -/
structure Report.Prints (p : Program Float) (s : Solution Float) (stdout : String) : Prop where
  status_eq : replyOf p.status = .ok (.ok s.status)
  of_feasible : s.status = .feasible → ∃ (values : Coords Float) (objective : Extended Float),
    replyOf p.values = .ok (.ok (some values)) ∧ values.size = p.vars.length ∧
      replyOf p.objectiveValue = .ok (.ok (some objective)) ∧
      stdout = printed (Report.lines .feasible objective.number? s.pivots
        ((p.vars.map Variable.name).zip values.toList))
  of_not_feasible : s.status ≠ .feasible →
    stdout = printed (Report.lines s.status none s.pivots [])

/-- What a report gives once the model is solved. -/
lemma ofProgram_result_eq {s : Solution Float} {values : Option (Coords Float)}
    (hsolved : p.solvedModel.result = .ok (.ok ⟨s, map⟩, { p with solved := some ⟨s, map⟩ }))
    (hvalues : s.values.mapM map.values = .ok values) :
    (Report.ofProgram p).result = .ok (.ok
      { status := s.status
        objective := match s.status with
          | .infeasible => none
          | _ => some (p.oriented s.objective)
        pivots := s.pivots
        values := (p.vars.map Variable.name).zip (values.getD #[]).toList }) := by
  set q : Program Float := { p with solved := some ⟨s, map⟩ }
  have hsolve : p.solve.result = .ok (.ok s, q) := Program.ask_result_eq hsolved rfl
  -- the solution is known from here on, and is only read
  have hagain : q.solvedModel.result = .ok (.ok ⟨s, map⟩, q) := Program.solvedModel_of_solved rfl
  have hobjective : q.objectiveValue.result = .ok (.ok (match s.status with
      | .infeasible => none
      | _ => some (p.oriented s.objective)), q) := Program.ask_result_eq hagain rfl
  have hall : q.values.result = .ok (.ok values, q) := Program.ask_result_eq hagain hvalues
  rw [Report.ofProgram, Traced.result_bind, hsolve]
  simp only [Except.bind, Traced.result_bind, hobjective, hall]
  rfl

/-- An infinite objective is no number in any direction. -/
lemma number?_oriented_posInfinity (p : Program Float) :
    (p.oriented .posInfinity).number? = none := by
  rw [Program.oriented]
  split <;> rfl

/-- The report of a solution has the names of the variables, and their values where there is an
optimum. -/
lemma exists_prints {s : Solution Float}
    (hsolved : p.solvedModel.result = .ok (.ok ⟨s, map⟩, { p with solved := some ⟨s, map⟩ }))
    (hfits : s.Fits form.numColumns)
    (hcolumns : ∀ t ∈ map.substitutions, ∀ c ∈ t.columns, c < form.numColumns)
    (hlength : map.substitutions.length = p.vars.length) :
    ∃ r : Report, (Report.ofProgram p).result = .ok (.ok r) ∧ r.status = s.status ∧
      Report.Prints p s (r.text "json") := by
  have hstatus : replyOf p.status = .ok (.ok s.status) := Program.replyOf_ask_eq hsolved rfl
  cases hfits with
  | @feasible x hsize best pivots =>
      obtain ⟨values, hvalues, hvaluesSize⟩ := @ColumnMap.exists_values _ _ map x (by rwa [hsize])
      have hall : (Solution.feasible x best pivots).values.mapM map.values = .ok (some values) := by
        simp [Solution.feasible, Option.mapM, hvalues]
      have hreply : replyOf p.values = .ok (.ok (some values)) :=
        Program.replyOf_ask_eq hsolved hall
      have hobjective : replyOf p.objectiveValue =
          .ok (.ok (some (p.oriented (.value best)))) := Program.replyOf_ask_eq hsolved rfl
      exact ⟨_, ofProgram_result_eq hsolved hall, rfl, hstatus,
        fun _ => ⟨values, _, hreply, hvaluesSize.trans hlength, hobjective, Report.text_json _⟩,
        fun hnot => absurd rfl hnot⟩
  | infeasible pivots =>
      refine ⟨_, ofProgram_result_eq hsolved rfl, rfl, hstatus, fun h => (by cases h), fun _ => ?_⟩
      rw [Report.text_json]
      simp [Solution.infeasible]
  | unbounded pivots =>
      refine ⟨_, ofProgram_result_eq hsolved rfl, rfl, hstatus, fun h => (by cases h), fun _ => ?_⟩
      rw [Report.text_json]
      simp [Solution.unbounded, number?_oriented_posInfinity]

/-- Either the engine breaks off, for the queries too, or there is a report of what they give. -/
theorem report_cases (h : described.Loads p) :
    (∃ fault, replyOf p.solve = .error fault ∧ replyOf p.status = .error fault ∧
        (Report.ofProgram p).result = .error fault) ∨
      ∃ s r, replyOf p.solve = .ok (.ok s) ∧ (Report.ofProgram p).result = .ok (.ok r) ∧
        r.status = s.status ∧ Report.Prints p s (r.text "json") := by
  obtain ⟨form, map, hbuild, hlength, hcolumns, -⟩ := exists_build h
  cases hsolve : (p.solver.solve form).result with
  | error fault =>
      have hstatus : p.status.result = .error fault :=
        Program.ask_result_of_fault h.solved_eq hbuild hsolve _
      have hall : p.solve.result = .error fault :=
        Program.ask_result_of_fault h.solved_eq hbuild hsolve _
      refine .inl ⟨fault, ?_, ?_, ?_⟩
      · rw [replyOf, hall]
        rfl
      · rw [replyOf, hstatus]
        rfl
      · rw [Report.ofProgram, Traced.result_bind, hall]
        rfl
  | ok s =>
      have hsolved := Program.solvedModel_result_eq h.solved_eq hbuild hsolve
      obtain ⟨r, hr, hstatus, hprints⟩ :=
        exists_prints hsolved (Solver.fits_of_solve hsolve) hcolumns hlength
      exact .inr ⟨s, r, Program.replyOf_ask_eq hsolved rfl, hr, hstatus, hprints⟩

/-! ### Exit codes -/

/-- The exit code of a request. -/
def exitCode (wording : Wording) (verbose : Bool) (request : Request) (content : FileContent) :
    Nat :=
  (finish verbose (execute wording request content)).code

lemma stderr_modelFailure_ne (error : ModelError Float) : (modelFailure error).stderr ≠ "" := by
  intro h
  simp [modelFailure, Result.failure] at h

lemma failure_ne_modelFailure (file message : String) (error : ModelError Float) :
    Result.failure s!"✗ {file}: {message}" ≠ modelFailure error := by
  intro h
  have hhead := congrArg (fun r => r.stderr.toList.head?) h
  simp [modelFailure, Result.failure, toString] at hhead

lemma exitCode_of_result {verbose : Bool} {request : Request} {result : Result}
    (h : (execute wording request content).result = .ok result) :
    exitCode wording verbose request content = result.code := by
  rw [exitCode, finish, h]

lemma exitCode_of_fault {verbose : Bool} {request : Request} {fault : Fault}
    (h : (execute wording request content).result = .error fault) :
    exitCode wording verbose request content = Result.faultCode := by
  rw [exitCode, finish, h]
  rfl

/-! ### Requests -/

section Requests

variable {request : Request} {file format : String}

/-- A file that is not loaded is reported, whatever is asked for. -/
lemma execute_of_error {message : String} (h : load wording content = .error message) :
    (execute wording request content).result = .ok (.failure s!"✗ {request.file}: {message}") := by
  rw [execute, h]
  rfl

/-- A check of a program that is loaded always succeeds. -/
lemma execute_check (h : load wording content = .ok p) :
    (execute wording (.check file) content).result =
      .ok (.success (s!"✓ {file} is valid\n" ++ (Summary.ofProgram p).text)) := by
  rw [execute, h]
  rfl

/-- The request for a canonical form succeeds where there is one. -/
lemma execute_standardForm (h : load wording content = .ok p)
    (hbuild : p.build.result = .ok (.ok (form, map))) :
    (execute wording (.standardForm file) content).result =
      .ok (.success (standardFormText p.vars form map)) := by
  rw [execute, h]
  simp only [answer, Traced.result_bind, hbuild]
  rfl

/-- A solution succeeds with an optimum only, in every format. -/
lemma execute_solve (h : load wording content = .ok p) {r : Report}
    (hreport : (Report.ofProgram p).result = .ok (.ok r)) :
    (execute wording (.solve file format) content).result =
      .ok ⟨if r.status = .feasible then 0 else 1, r.text format, ""⟩ := by
  rw [execute, h]
  simp only [answer, Traced.result_bind, hreport]
  rfl

lemma execute_solve_of_fault (h : load wording content = .ok p) {fault : Fault}
    (hreport : (Report.ofProgram p).result = .error fault) :
    (execute wording (.solve file format) content).result = .error fault := by
  rw [execute, h]
  simp only [answer, Traced.result_bind, hreport]
  rfl

/-- A request fails where the file is not loaded. -/
lemma exitCode_ne_zero_of_error {message : String} (h : load wording content = .error message)
    (verbose : Bool) : exitCode wording verbose request content ≠ 0 := by
  rw [exitCode_of_result (execute_of_error h)]
  exact Nat.one_ne_zero

lemma exitCode_check_iff (verbose : Bool) :
    exitCode wording verbose (.check file) content = 0 ↔ ∃ p, load wording content = .ok p := by
  cases hload : load wording content with
  | error message => simp [exitCode_ne_zero_of_error hload]
  | ok p =>
      rw [exitCode_of_result (execute_check hload)]
      exact iff_of_true rfl ⟨p, rfl⟩

lemma exitCode_standardForm_iff (verbose : Bool) :
    exitCode wording verbose (.standardForm file) content = 0 ↔
      ∃ p, load wording content = .ok p := by
  cases hload : load wording content with
  | error message => simp [exitCode_ne_zero_of_error hload]
  | ok p =>
      obtain ⟨-, described, -, -, hloads⟩ := load_eq_ok hload
      obtain ⟨form, map, hbuild, -, -⟩ := exists_build hloads
      rw [exitCode_of_result (execute_standardForm hload hbuild)]
      exact iff_of_true rfl ⟨p, rfl⟩

lemma exitCode_solve_iff (verbose : Bool) :
    exitCode wording verbose (.solve file format) content = 0 ↔
      ∃ p, load wording content = .ok p ∧ replyOf p.status = .ok (.ok .feasible) := by
  cases hload : load wording content with
  | error message => simp [exitCode_ne_zero_of_error hload]
  | ok p =>
      obtain ⟨-, described, -, -, hloads⟩ := load_eq_ok hload
      obtain ⟨fault, -, hfault, hreport⟩ | ⟨s, r, -, hreport, hstatus, hprints⟩ :=
        report_cases hloads
      · rw [exitCode_of_fault (execute_solve_of_fault hload hreport)]
        simp [hfault, Result.faultCode]
      · rw [exitCode_of_result (execute_solve hload hreport), hstatus]
        simp [hprints.status_eq]

/-- The format is no part of the outcome. -/
lemma exitCode_solve_eq (verbose : Bool) (format format' : String) :
    exitCode wording verbose (.solve file format) content =
      exitCode wording verbose (.solve file format') content := by
  cases hload : load wording content with
  | error message =>
      rw [exitCode_of_result (execute_of_error hload), exitCode_of_result (execute_of_error hload)]
      rfl
  | ok p =>
      obtain ⟨-, described, -, -, hloads⟩ := load_eq_ok hload
      obtain ⟨fault, -, -, hreport⟩ | ⟨s, r, -, hreport, -⟩ := report_cases hloads
      · rw [exitCode_of_fault (execute_solve_of_fault hload hreport),
          exitCode_of_fault (execute_solve_of_fault hload hreport)]
      · rw [exitCode_of_result (execute_solve hload hreport),
          exitCode_of_result (execute_solve hload hreport)]

/-- No model that is loaded is found to be wrong later. -/
lemma execute_ne_modelFailure (request : Request) (content : FileContent)
    (error : ModelError Float) :
    (execute wording request content).result ≠ .ok (modelFailure error) := by
  have hsilent : ∀ {result : Result}, (execute wording request content).result = .ok result →
      result.stderr = "" → (execute wording request content).result ≠ .ok (modelFailure error) := by
    intro result hresult hempty hfailure
    rw [hresult] at hfailure
    rw [Except.ok.inj hfailure] at hempty
    exact stderr_modelFailure_ne error hempty
  cases hload : load wording content with
  | error message =>
      rw [execute_of_error hload]
      exact fun h => failure_ne_modelFailure _ _ _ (Except.ok.inj h)
  | ok p =>
      obtain ⟨-, described, -, -, hloads⟩ := load_eq_ok hload
      cases request with
      | check file => exact hsilent (execute_check hload) rfl
      | standardForm file =>
          obtain ⟨form, map, hbuild, -, -⟩ := exists_build hloads
          exact hsilent (execute_standardForm hload hbuild) rfl
      | solve file format =>
          obtain ⟨fault, -, -, hreport⟩ | ⟨s, r, -, hreport, -⟩ := report_cases hloads
          · rw [execute_solve_of_fault hload hreport]
            exact fun h => by cases h
          · exact hsilent (execute_solve hload hreport) rfl

/-- The three commands agree on every file. A check and the request for a canonical form succeed
where the file is loaded, a solution where the program has an optimum besides, in every format; and
no model is found to be wrong once it is loaded. A program that is loaded has the variables that are
described, each once and in order. Where the engine gives a solution, what is printed in JSON is
what the queries give; and what a check prints and what the request for a canonical form prints
agree on the free variables and on the size of the form. -/
theorem commands_agree (wording : Wording) (verbose : Bool) (file : String)
    (content : FileContent) :
    (exitCode wording verbose (.check file) content = 0 ↔ ∃ p, load wording content = .ok p) ∧
    (exitCode wording verbose (.standardForm file) content = 0 ↔
      ∃ p, load wording content = .ok p) ∧
    (∀ format, exitCode wording verbose (.solve file format) content = 0 ↔
      ∃ p, load wording content = .ok p ∧ replyOf p.status = .ok (.ok .feasible)) ∧
    (∀ format format', exitCode wording verbose (.solve file format) content =
      exitCode wording verbose (.solve file format') content) ∧
    (∀ request error, (execute wording request content).result ≠ .ok (modelFailure error)) ∧
    ∀ p, load wording content = .ok p →
      (∃ text, ∃ described : ModelFile Float, content = .ok text ∧
        Json.Reader.document ModelFile.read text = .ok described ∧
        p.vars.map Variable.name = described.vars.map VariableEntry.name ∧
        (p.vars.map Variable.name).Nodup) ∧
      (∀ s, replyOf p.solve = .ok (.ok s) → ∃ stdout,
        (execute wording (.solve file "json") content).result =
          .ok ⟨if s.status = .feasible then 0 else 1, stdout, ""⟩ ∧
        Report.Prints p s stdout) ∧
      ∃ form map checked listed, p.build.result = .ok (.ok (form, map)) ∧
        (execute wording (.check file) content).result = .ok (.success checked) ∧
        (execute wording (.standardForm file) content).result = .ok (.success listed) ∧
        SizesAgree file p form (map.substitutions.map Substitution.text) checked listed := by
  refine ⟨exitCode_check_iff verbose, exitCode_standardForm_iff verbose,
    fun format => exitCode_solve_iff verbose, exitCode_solve_eq verbose,
    fun request error => execute_ne_modelFailure request content error, fun p hload => ?_⟩
  obtain ⟨text, described, htext, hread, hloads⟩ := load_eq_ok hload
  obtain ⟨form, map, hbuild, -, -, hsizes⟩ := exists_build hloads
  have hnames : p.vars.map Variable.name = described.vars.map VariableEntry.name := by
    rw [hloads.vars_eq, List.map_map]
    rfl
  refine ⟨⟨text, described, htext, hread, hnames, hloads.nodup⟩, fun s hsolve => ?_, form, map, _,
    _, hbuild, execute_check hload, execute_standardForm hload hbuild, hsizes file⟩
  obtain ⟨fault, hfault, -⟩ | ⟨s', r, hsolve', hreport, hstatus, hprints⟩ := report_cases hloads
  · rw [hfault] at hsolve
    cases hsolve
  · obtain rfl : s' = s := Except.ok.inj (Except.ok.inj (hsolve'.symm.trans hsolve))
    rw [← hstatus]
    exact ⟨_, execute_solve hload hreport, hprints⟩

/-- The program that makes the sum of two variables as large as it can be, the first one of them
between zero and three and the second one free, where the sum is at most two. -/
def sumSample : Program Float where
  vars := [⟨"x", some 0, some 3⟩, ⟨"y", none, none⟩]
  constraints := [⟨[(⟨0⟩, 1), (⟨1⟩, 1)], .le, 2⟩]
  objective := some ⟨.maximize, [(⟨0⟩, 1), (⟨1⟩, 1)]⟩
  solver := .standard
  solved := none

/-- A file that describes it. -/
def sumFile : FileContent :=
  .ok ("\x7b\"variables\": [\x7b\"name\": \"x\", \"lower\": 0, \"upper\": 3\x7d, " ++
    "\x7b\"name\": \"y\"\x7d]," ++
    "\"constraints\": [\x7b\"terms\": [[\"x\", 1], [\"y\", 1]], " ++
    "\"relation\": \"<=\", \"rhs\": 2\x7d]," ++
    "\"objective\": \x7b\"goal\": \"maximize\", \"terms\": [[\"x\", 1], [\"y\", 1]]\x7d\x7d")

/-- All three requests succeed there. The second variable is free, the only one with a difference of
columns, and the canonical form has a row for the bounds of the first one. -/
theorem commands_agree_sumFile :
    let wording : Wording := fun _ _ => "no model"
    load wording sumFile = .ok sumSample ∧
      exitCode wording false (.check "sum.json") sumFile = 0 ∧
      exitCode wording false (.standardForm "sum.json") sumFile = 0 ∧
      exitCode wording true (.solve "sum.json" "json") sumFile = 0 ∧
      (∃ s stdout, s.status = .feasible ∧ Report.Prints sumSample s stdout ∧
        (execute wording (.solve "sum.json" "json") sumFile).result = .ok ⟨0, stdout, ""⟩) ∧
      ∃ form expressions checked listed,
        SizesAgree "sum.json" sumSample form expressions checked listed ∧
        expressions.countP isDifference = 1 ∧ form.numColumns = 3 ∧ form.numRows = 2 := by
  intro wording
  have hload : load wording sumFile = .ok sumSample := by decide +kernel
  have hsolve : (replyOf sumSample.solve).map (fun reply => reply.map Solution.status) =
      .ok (.ok .feasible) := by decide +kernel
  have hstatus : replyOf sumSample.status = .ok (.ok .feasible) := by decide +kernel
  obtain ⟨hcheck, hform, -, -, -, hloaded⟩ := commands_agree wording false "sum.json" sumFile
  obtain ⟨-, -, hsucceeds, -⟩ := commands_agree wording true "sum.json" sumFile
  obtain ⟨-, hprints, form, map, checked, listed, -, -, -, hsizes⟩ := hloaded sumSample hload
  cases hs : replyOf sumSample.solve with
  | error fault =>
      rw [hs] at hsolve
      cases hsolve
  | ok reply =>
      cases reply with
      | error error =>
          rw [hs] at hsolve
          cases hsolve
      | ok s =>
          rw [hs] at hsolve
          have hfeasible : s.status = .feasible := Except.ok.inj (Except.ok.inj hsolve)
          obtain ⟨stdout, hstdout, hprinted⟩ := hprints s hs
          rw [if_pos hfeasible] at hstdout
          have hcount : (map.substitutions.map Substitution.text).countP isDifference = 1 :=
            (countP_eq_of_map_eq hsizes.differences_eq).trans (by decide +kernel)
          refine ⟨hload, hcheck.mpr ⟨_, hload⟩, hform.mpr ⟨_, hload⟩,
            (hsucceeds "json").mpr ⟨_, hload, hstatus⟩, ⟨s, stdout, hfeasible, hprinted, hstdout⟩,
            form, _, checked, listed, hsizes, hcount, ?_, ?_⟩
          · rw [hsizes.numColumns_eq, hcount]
            rfl
          · rw [hsizes.numRows_eq]
            decide +kernel

end Requests

end LinProg.Command
