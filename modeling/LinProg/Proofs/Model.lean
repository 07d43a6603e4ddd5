import LinProg.Proofs.Rational
import LinProg.StandardForm.OfModel

/-!
What a model asks of the values of its variables, over the exact rationals.

* `Terms.Known`, `Terms.value`: a sum of variables that a model has, and its value.
* `Satisfies`: the values lie within all bounds and satisfy all constraints.
* `Goal.Prefers`: one value of the objective is at least as good as another.
* `Constraint.isSatisfiedBy_zero_iff`, `Goal.sign_mul_le_iff`: relations and goals by their signs.
-/

namespace LinProg

/-! ### Sums -/

namespace Terms

variable {terms : Terms ℚ} {count : ℕ} {x x' : ℕ → ℚ}

/-- All variables of a sum are among the first `count` ones. -/
def Known (terms : Terms ℚ) (count : ℕ) : Prop := ∀ term ∈ terms, term.1.index < count

instance (terms : Terms ℚ) (count : ℕ) : Decidable (terms.Known count) :=
  inferInstanceAs (Decidable (∀ term ∈ terms, term.1.index < count))

/-- The value of a sum where the variables have given values. -/
def value (terms : Terms ℚ) (x : ℕ → ℚ) : ℚ := terms.valueAt fun id => x id.index

lemma value_eq (terms : Terms ℚ) (x : ℕ → ℚ) :
    terms.value x = (terms.map fun term => term.2 * x term.1.index).sum :=
  Scalar.sum_eq _

@[simp] lemma value_nil (x : ℕ → ℚ) : value [] x = 0 := by simp [value_eq]

@[simp] lemma value_cons (id : VariableId) (weight : ℚ) (terms : Terms ℚ) (x : ℕ → ℚ) :
    value ((id, weight) :: terms) x = weight * x id.index + value terms x := by
  rw [value_eq, value_eq, List.map_cons, List.sum_cons]

lemma firstUnknown?_eq_none_iff : terms.firstUnknown? count = none ↔ terms.Known count :=
  firstUnknown?_eq_none

/-- Only the variables that a sum names matter. -/
lemma value_congr (h : terms.Known count) (hx : ∀ i < count, x i = x' i) :
    terms.value x = terms.value x' := by
  rw [value_eq, value_eq, List.map_congr_left fun term hterm => by rw [hx _ (h term hterm)]]

lemma Known.mono {count' : ℕ} (h : terms.Known count) (hle : count ≤ count') :
    terms.Known count' := fun term hterm => (h term hterm).trans_le hle

end Terms

/-! ### Constraints -/

namespace Constraint

/-- Without slack, a constraint holds where it does as one or two inequalities `≤`. -/
lemma isSatisfiedBy_zero_iff {c : Constraint ℚ} {x : ℕ → ℚ} :
    c.isSatisfiedBy (fun id => x id.index) 0 ↔
      ∀ sign ∈ (c.relation.signs : List ℚ), sign * c.terms.value x ≤ sign * c.rhs := by
  rcases c with ⟨terms, _ | _ | _, rhs⟩
  · simp [isSatisfiedBy, Relation.signs, Terms.value]
  · simp [isSatisfiedBy, Relation.signs, Terms.value]
  · simp only [isSatisfiedBy, Relation.signs, Scalar.abs_eq, abs_nonpos_iff, sub_eq_zero,
      decide_eq_true_eq, List.mem_cons, List.not_mem_nil, or_false, forall_eq_or_imp, forall_eq,
      one_mul, neg_one_mul, neg_le_neg_iff]
    exact le_antisymm_iff

end Constraint

/-- The values lie within all bounds and satisfy all constraints. -/
structure Satisfies (vars : List (Variable ℚ)) (constraints : List (Constraint ℚ)) (x : ℕ → ℚ) :
    Prop where
  contains : ∀ i (v : Variable ℚ), vars[i]? = some v → v.contains (x i) 0
  isSatisfiedBy : ∀ c ∈ constraints, c.isSatisfiedBy (fun id => x id.index) 0

/-- Only the variables of the model matter. -/
lemma satisfies_congr {vars : List (Variable ℚ)} {constraints : List (Constraint ℚ)}
    {x x' : ℕ → ℚ} (hknown : ∀ c ∈ constraints, c.terms.Known vars.length)
    (hx : ∀ i < vars.length, x i = x' i) :
    Satisfies vars constraints x ↔ Satisfies vars constraints x' := by
  have hcontains : ∀ i (v : Variable ℚ), vars[i]? = some v →
      (v.contains (x i) 0 ↔ v.contains (x' i) 0) := by
    intro i v hv
    obtain ⟨hi, -⟩ := List.getElem?_eq_some_iff.mp hv
    rw [hx i hi]
  have hsatisfied : ∀ c ∈ constraints, (c.isSatisfiedBy (fun id => x id.index) 0 ↔
      c.isSatisfiedBy (fun id => x' id.index) 0) := by
    intro c hc
    rw [Constraint.isSatisfiedBy_zero_iff, Constraint.isSatisfiedBy_zero_iff,
      Terms.value_congr (hknown c hc) hx]
  constructor
  · rintro ⟨hc, hs⟩
    exact ⟨fun i v hv => (hcontains i v hv).mp (hc i v hv),
      fun c hmem => (hsatisfied c hmem).mp (hs c hmem)⟩
  · rintro ⟨hc, hs⟩
    exact ⟨fun i v hv => (hcontains i v hv).mpr (hc i v hv),
      fun c hmem => (hsatisfied c hmem).mpr (hs c hmem)⟩

/-! ### Goals -/

namespace Goal

/-- The value `a` is at least as good as `b`. -/
def Prefers : Goal → ℚ → ℚ → Prop
  | maximize, a, b => b ≤ a
  | minimize, a, b => a ≤ b

lemma sign_mul_le_iff {goal : Goal} {a b : ℚ} :
    goal.sign * b ≤ goal.sign * a ↔ goal.Prefers a b := by
  cases goal <;> simp [sign, Prefers]

end Goal

end LinProg
