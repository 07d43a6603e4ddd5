import LinProg.Json.Forms
import LinProg.Proofs.Json.Record

/-!
The JSON forms of the values of the library lose nothing.

* `NumbersReadBack`, for each type: what has to hold of the numbers in a value. Each has to be read
  back from its own text, as `Json.ReadsBack` says of one number; a count or an index has to have 64
  bits.
* `reads_write`, for each type: such a value is read where it is written, alone or inside another
  one.
* `Lossless`, `forms_lossless`: such values are read back from their texts, and different ones have
  different texts.
-/

namespace LinProg

open Json Json.Reader Json.Members

variable {α : Type} [NumberText α]

/-! ### Small values -/

/-- A count or an index has 64 bits. -/
def FitsWord (n : ℕ) : Prop := n < UInt64.size

instance (n : ℕ) : Decidable (FitsWord n) := inferInstanceAs (Decidable (n < UInt64.size))

lemma reads_count {n : ℕ} (h : FitsWord n) : Reads Reader.natural (writeNatural n) n :=
  reads_natural h

lemma VariableId.reads_write {id : VariableId} (h : FitsWord id.index) :
    Reads VariableId.read id.write id :=
  (reads_count h).bind rfl

lemma Relation.reads_write (r : Relation) : Reads Relation.read r.write r := by
  cases r <;> exact reads_choice_bare (v := Variant.unit _ _) rfl rfl

lemma Goal.reads_write (g : Goal) : Reads Goal.read g.write g := by
  cases g <;> exact reads_choice_bare (v := Variant.unit _ _) rfl rfl

lemma Status.reads_write (s : Status) : Reads Status.read s.write s := by
  cases s <;> exact reads_choice_bare (v := Variant.unit _ _) rfl rfl

namespace Coords

/-- All numbers of the vector are read back. -/
def NumbersReadBack (v : Coords α) : Prop := ∀ x ∈ v.toList, Json.ReadsBack x

instance [DecidableEq α] (v : Coords α) : Decidable v.NumbersReadBack :=
  inferInstanceAs (Decidable (∀ x ∈ v.toList, Json.ReadsBack x))

lemma reads_write {v : Coords α} (h : v.NumbersReadBack) : Reads read v.write v :=
  (reads_list fun x hx => reads_number (h x hx)).bind (by simp)

end Coords

/-! ### Programs and their solutions -/

namespace DenseMatrix

/-- All numbers of the matrix are read back, and its dimensions have 64 bits. -/
structure NumbersReadBack (m : DenseMatrix α) : Prop where
  rows : FitsWord m.rows
  cols : FitsWord m.cols
  data : m.data.NumbersReadBack

lemma reads_write {m : DenseMatrix α} (h : m.NumbersReadBack) : Reads read m.write m := by
  have hdata := written_one (.required "data" Coords.read) (Coords.reads_write h.data)
  have hcols := written_cons (.required "cols" Reader.natural) (reads_count h.cols) hdata
    (by simp)
  have hrows := written_cons (.required "rows" Reader.natural) (reads_count h.rows) hcols
    (by simp)
  exact (reads_record hrows).bind rfl

end DenseMatrix

namespace StandardForm

/-- All numbers of the program are read back. -/
structure NumbersReadBack (form : StandardForm α) : Prop where
  a : form.a.NumbersReadBack
  b : form.b.NumbersReadBack
  c : form.c.NumbersReadBack
  constant : Json.ReadsBack form.constant

lemma reads_write {form : StandardForm α} (h : form.NumbersReadBack) :
    Reads read form.write form := by
  have hconstant := written_one (.required "constant" Reader.number) (reads_number h.constant)
  have hc := written_cons (.required "c" Coords.read) (Coords.reads_write h.c) hconstant (by simp)
  have hb := written_cons (.required "b" Coords.read) (Coords.reads_write h.b) hc (by simp)
  have ha := written_cons (.required "a" DenseMatrix.read) (DenseMatrix.reads_write h.a) hb
    (by simp)
  exact (reads_record ha).bind rfl

end StandardForm

namespace Substitution

/-- The bound is read back, and the columns have 64 bits. -/
def NumbersReadBack : Substitution α → Prop
  | shifted bound column | reflected bound column => Json.ReadsBack bound ∧ FitsWord column
  | split positive negative => FitsWord positive ∧ FitsWord negative

/-- The parts of a substitution with one bound and one column. -/
lemma written_bound (bound : String) {x : α} {column : ℕ} (hbound : bound ≠ "column")
    (hx : Json.ReadsBack x) (hcolumn : FitsWord column) :
    Written (boundMembers bound)
      [(bound, writeNumber x), ("column", writeNatural column)] (x, column) :=
  written_cons (.required bound Reader.number) (reads_number hx)
    (written_one (.required "column" Reader.natural) (reads_count hcolumn))
    (by simpa using hbound)

/-- The parts of a substitution with two columns. -/
lemma written_split {positive negative : ℕ} (hpositive : FitsWord positive)
    (hnegative : FitsWord negative) :
    Written splitMembers
      [("positive", writeNatural positive), ("negative", writeNatural negative)]
      (positive, negative) :=
  written_cons (.required "positive" Reader.natural) (reads_count hpositive)
    (written_one (.required "negative" Reader.natural) (reads_count hnegative)) (by simp)

lemma reads_write {s : Substitution α} (h : s.NumbersReadBack) : Reads read s.write s := by
  cases s with
  | shifted lower column =>
      have hparts := reads_record (written_bound "lower" (by decide) h.1 h.2)
      exact reads_choice_with (v := Variant.ofMembers _ _ _) rfl (hparts.bind rfl)
  | reflected upper column =>
      have hparts := reads_record (written_bound "upper" (by decide) h.1 h.2)
      exact reads_choice_with (v := Variant.ofMembers _ _ _) rfl (hparts.bind rfl)
  | split positive negative =>
      have hparts := reads_record (written_split h.1 h.2)
      exact reads_choice_with (v := Variant.ofMembers _ _ _) rfl (hparts.bind rfl)

end Substitution

namespace ColumnMap

/-- All substitutions are read back, and the number of columns has 64 bits. -/
structure NumbersReadBack (map : ColumnMap α) : Prop where
  substitutions : ∀ s ∈ map.substitutions, s.NumbersReadBack
  numColumns : FitsWord map.numColumns

lemma reads_write {map : ColumnMap α} (h : map.NumbersReadBack) : Reads read map.write map := by
  have hcolumns := written_one (.required "num_columns" Reader.natural) (reads_count h.numColumns)
  have hlist := written_cons (.required "substitutions" (Reader.list Substitution.read))
    (reads_list fun s hs => Substitution.reads_write (h.substitutions s hs)) hcolumns (by simp)
  exact (reads_record hlist).bind rfl

end ColumnMap

namespace Solution

/-- The objective is finite and all numbers of the solution are read back. -/
structure NumbersReadBack (s : Solution α) : Prop where
  values : ∀ v ∈ s.values, v.NumbersReadBack
  objective : ∃ x, s.objective = .value x ∧ Json.ReadsBack x
  pivots : FitsWord s.pivots

/-- The values of a solution are there or not. -/
lemma reads_values {values : Option (Coords α)} (h : ∀ v ∈ values, v.NumbersReadBack) :
    Reads (Reader.optional Coords.read) (writeOptional Coords.write values) values := by
  cases values with
  | none => exact reads_optional_none
  | some v =>
      have hnull : v.write.head? ≠ some 'n' := by simp [Coords.write, writeList]
      exact reads_optional_some (Coords.reads_write (h v rfl)) hnull

lemma reads_write {s : Solution α} (h : s.NumbersReadBack) : Reads read s.write s := by
  obtain ⟨status, values, objective, pivots⟩ := s
  obtain ⟨x, rfl, hx⟩ := h.objective
  have hpivots := written_one (.required "pivots" Reader.natural) (reads_count h.pivots)
  have hobjective := written_cons (.required "objective_value" Reader.number) (reads_number hx)
    hpivots (by simp)
  have hvalues := written_cons (.optional "values" Coords.read) (reads_values h.values) hobjective
    (by simp)
  have hstatus := written_cons (.required "status" Status.read) (Status.reads_write status) hvalues
    (by simp)
  exact (reads_record hstatus).bind rfl

end Solution

/-! ### Nothing is lost -/

/-- The values with a property are read back from the texts they are written as, and different ones
are written as different texts. -/
structure Lossless {β : Type} (write : β → List Char) (read : Reader β) (P : β → Prop) : Prop where
  document_eq : ∀ x, P x → document read (String.ofList (write x)) = .ok x
  ne_of_ne : ∀ x y, P x → P y → x ≠ y → String.ofList (write x) ≠ String.ofList (write y)

/-- Readers of what is written lose nothing. -/
lemma lossless_of_reads {β : Type} {write : β → List Char} {read : Reader β} {P : β → Prop}
    (h : ∀ {x}, P x → Reads read (write x) x) : Lossless write read P where
  document_eq x hx := (h hx).document_eq
  ne_of_ne x y hx hy hne heq := hne <| by
    have hread := (h hx).document_eq
    rw [heq, (h hy).document_eq] at hread
    exact (Except.ok.inj hread).symm

/-- The values of the library that are both written and read lose nothing, where their numbers are
read back and their counts and indices have 64 bits. Statuses, relations and goals have neither. -/
theorem forms_lossless :
    Lossless DenseMatrix.write DenseMatrix.read (fun m : DenseMatrix α => m.NumbersReadBack) ∧
    Lossless StandardForm.write StandardForm.read
      (fun form : StandardForm α => form.NumbersReadBack) ∧
    Lossless Substitution.write Substitution.read (fun s : Substitution α => s.NumbersReadBack) ∧
    Lossless ColumnMap.write ColumnMap.read (fun map : ColumnMap α => map.NumbersReadBack) ∧
    Lossless Solution.write Solution.read (fun s : Solution α => s.NumbersReadBack) ∧
    Lossless Status.write Status.read (fun _ => True) ∧
    Lossless Relation.write Relation.read (fun _ => True) ∧
    Lossless Goal.write Goal.read (fun _ => True) ∧
    Lossless VariableId.write VariableId.read (fun id => FitsWord id.index) where
  left := lossless_of_reads DenseMatrix.reads_write
  right := ⟨lossless_of_reads StandardForm.reads_write, lossless_of_reads Substitution.reads_write,
    lossless_of_reads ColumnMap.reads_write, lossless_of_reads Solution.reads_write,
    lossless_of_reads fun {s} _ => s.reads_write, lossless_of_reads fun {r} _ => r.reads_write,
    lossless_of_reads fun {g} _ => g.reads_write, lossless_of_reads VariableId.reads_write⟩

/-- A map with a substitution of each kind. -/
def threeKinds : ColumnMap Float := ⟨[.shifted (-2.5e-7) 0, .reflected 0.1 1, .split 2 3], 4⟩

/-- An optimal point with a negative zero, and the objective far from its digits. -/
def distant : Solution Float := ⟨.feasible, some #[-0.0, 12345.678], .value 1e300, 7⟩

/-- An answer without values. -/
def hopeless : Solution Float := .infeasible 2

/-- Solutions with and without values, and the substitutions of each kind, are read back. -/
theorem forms_lossless_distant :
    document Solution.read (String.ofList distant.write) = .ok distant ∧
    document Solution.read (String.ofList hopeless.write) = .ok hopeless ∧
    String.ofList distant.write ≠ String.ofList hopeless.write ∧
    document ColumnMap.read (String.ofList threeKinds.write) = .ok threeKinds := by
  obtain ⟨-, -, -, hmap, hsolution, -⟩ := @forms_lossless Float _
  have hdistant : distant.NumbersReadBack := by
    refine ⟨fun v hv => ?_, ⟨1e300, rfl, by decide +kernel⟩, by decide⟩
    obtain rfl := Option.mem_some.mp hv
    decide +kernel
  have hhopeless : hopeless.NumbersReadBack := by
    refine ⟨fun v hv => ?_, ⟨0, rfl, by decide +kernel⟩, by decide⟩
    cases hv
  have hthreeKinds : threeKinds.NumbersReadBack := by
    refine ⟨fun s hs => ?_, by decide⟩
    simp only [threeKinds, List.mem_cons, List.not_mem_nil, or_false] at hs
    obtain rfl | rfl | rfl := hs
    · exact ⟨by decide +kernel, by decide⟩
    · exact ⟨by decide +kernel, by decide⟩
    · exact ⟨by decide, by decide⟩
  exact ⟨hsolution.document_eq _ hdistant, hsolution.document_eq _ hhopeless,
    hsolution.ne_of_ne _ _ hdistant hhopeless (by decide),
    hmap.document_eq _ hthreeKinds⟩

end LinProg
