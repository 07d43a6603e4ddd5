import Mathlib
import LinProg.Traced

/-!
When sequences of computations succeed.

* `bind_eq_ok`: a sequence that may fail succeeds when both of its parts do.
* `mapM_eq_ok`, `exists_mapM_eq_ok`, `exists_of_mapM_eq_ok`: a list of computations succeeds when
  each of them does, and `forall_mem_iff_of_forall₂` speaks of all values by all arguments.
* `foldlM_preserves`: what every step keeps, a sequence of steps keeps.
* `foldlM_eq_ok`, `foldlM_range_eq_ok`: a loop in which no step fails gives what its steps give, one
  after another.
* `Traced.result_bind_eq_ok`: the same for computations that report their steps.
* `Traced.Meets`: what holds of every reported step, of the value and of a fault, with one rule for
  each way of putting computations together.
* `Alike`: two computations that break off with the same fault or give related values;
  `Alike.bind` is the rule for sequences of them.
-/

namespace LinProg

/-- A sequence succeeds when its first part does and the rest does from there. -/
lemma bind_eq_ok {ε β γ : Type} {x : Except ε β} {f : β → Except ε γ} {c : γ} :
    x >>= f = .ok c ↔ ∃ b, x = .ok b ∧ f b = .ok c := by
  cases x <;> simp [bind, Except.bind]

lemma ok_bind {ε β γ : Type} (b : β) (f : β → Except ε γ) : (Except.ok b >>= f) = f b := rfl

/-- What comes after a first part matters only for the values that it gives. -/
lemma bind_congr_of_eq_ok {ε β γ : Type} {x : Except ε β} {f g : β → Except ε γ}
    (h : ∀ b, x = .ok b → f b = g b) : x >>= f = x >>= g := by
  cases x with
  | error => rfl
  | ok b => exact h b rfl

/-- A list of computations with known values. -/
lemma mapM_eq_ok {ε β γ : Type} {f : β → Except ε γ} {g : β → γ} {xs : List β}
    (h : ∀ b ∈ xs, f b = .ok (g b)) : xs.mapM f = .ok (xs.map g) := by
  induction xs with
  | nil => rfl
  | cons b xs ih =>
      rw [List.mapM_cons, h b (by simp), ih fun b hb => h b (by simp [hb])]
      rfl

/-- Where a list of computations succeeds, each of them does. -/
lemma exists_of_mapM_eq_ok {ε β γ : Type} {f : β → Except ε γ} {xs : List β} {cs : List γ}
    (h : xs.mapM f = .ok cs) : ∀ b ∈ xs, ∃ c, f b = .ok c := by
  induction xs generalizing cs with
  | nil => simp
  | cons b xs ih =>
      rw [List.mapM_cons] at h
      obtain ⟨c, hc, h⟩ := bind_eq_ok.mp h
      obtain ⟨cs', hcs', -⟩ := bind_eq_ok.mp h
      exact List.forall_mem_cons.mpr ⟨⟨c, hc⟩, ih hcs'⟩

/-- A list of computations each of which gives a value with some relation to its argument. -/
lemma exists_mapM_eq_ok {ε β γ : Type} {f : β → Except ε γ} {R : β → γ → Prop} {xs : List β}
    (h : ∀ b ∈ xs, ∃ c, f b = .ok c ∧ R b c) :
    ∃ cs, xs.mapM f = .ok cs ∧ List.Forall₂ R xs cs := by
  induction xs with
  | nil => exact ⟨[], rfl, .nil⟩
  | cons b xs ih =>
      obtain ⟨c, hc, hR⟩ := h b (by simp)
      obtain ⟨cs, hcs, hRs⟩ := ih fun b hb => h b (by simp [hb])
      refine ⟨c :: cs, ?_, .cons hR hRs⟩
      rw [List.mapM_cons, hc, hcs]
      rfl

/-- What every step keeps, a sequence of steps that succeeds keeps. -/
lemma foldlM_preserves {ε β γ : Type} {P : β → Prop} {step : β → γ → Except ε β}
    (hstep : ∀ {b b' c}, P b → step b c = .ok b' → P b') {cs : List γ} {b b' : β} (hb : P b)
    (h : cs.foldlM step b = .ok b') : P b' := by
  induction cs generalizing b with
  | nil =>
      obtain rfl := Except.ok.inj h
      exact hb
  | cons c cs ih =>
      rw [List.foldlM_cons] at h
      obtain ⟨next, hnext, hrest⟩ := bind_eq_ok.mp h
      exact ih (hstep hb hnext) hrest

/-- A loop whose steps succeed on all values that come up is the loop over what they give. -/
lemma foldlM_eq_ok_of_preserves {ε β γ : Type} {P : β → Prop} {step : β → γ → Except ε β}
    {g : β → γ → β} {cs : List γ}
    (h : ∀ c ∈ cs, ∀ b, P b → step b c = .ok (g b c) ∧ P (g b c)) {b : β} (hb : P b) :
    cs.foldlM step b = .ok (cs.foldl g b) := by
  induction cs generalizing b with
  | nil => rfl
  | cons c cs ih =>
      obtain ⟨hstep, hnext⟩ := h c (by simp) b hb
      rw [List.foldlM_cons, hstep]
      exact ih (fun c hc => h c (by simp [hc])) hnext

lemma foldlM_eq_ok {ε β γ : Type} {step : β → γ → Except ε β} {g : β → γ → β} {cs : List γ}
    (h : ∀ c ∈ cs, ∀ b, step b c = .ok (g b c)) (b : β) :
    cs.foldlM step b = .ok (cs.foldl g b) :=
  foldlM_eq_ok_of_preserves (P := fun _ => True) (fun c hc b _ => ⟨h c hc b, trivial⟩) trivial

/-- A loop over the first numbers, where each step leads from what is known before it to what is
known after it. -/
lemma foldlM_range_eq_ok {ε β : Type} {step : β → ℕ → Except ε β} (state : ℕ → β) {n : ℕ}
    (h : ∀ k < n, step (state k) k = .ok (state (k + 1))) :
    (List.range n).foldlM step (state 0) = .ok (state n) := by
  induction n with
  | zero => rfl
  | succ n ih =>
      rw [List.range_succ, List.foldlM_append, ih fun k hk => h k (Nat.lt_succ_of_lt hk)]
      simp only [List.foldlM_cons, List.foldlM_nil, bind_pure]
      exact h n (Nat.lt_succ_self n)

/-- An error that is only named otherwise is still one. -/
lemma mapError_eq_ok {ε ε' β : Type} {x : Except ε β} {f : ε → ε'} {b : β} :
    x.mapError f = .ok b ↔ x = .ok b := by
  cases x <;> simp [Except.mapError]

lemma forall_mem_iff_of_forall₂ {β γ : Type} {R : β → γ → Prop} {P : β → Prop} {Q : γ → Prop}
    {bs : List β} {cs : List γ} (h : List.Forall₂ R bs cs) (hPQ : ∀ b c, R b c → (P b ↔ Q c)) :
    (∀ b ∈ bs, P b) ↔ ∀ c ∈ cs, Q c := by
  induction h with
  | nil => simp
  | cons hR _ ih => rw [List.forall_mem_cons, List.forall_mem_cons, hPQ _ _ hR, ih]

namespace Traced

variable {α β γ : Type}

/-- A sequence gives a value when its first part does and the rest does from there. -/
lemma result_bind_eq_ok {x : Traced α β} {next : β → Traced α γ} {c : γ} :
    (x >>= next).result = .ok c ↔ ∃ b, x.result = .ok b ∧ (next b).result = .ok c := by
  rw [result_bind]
  cases x.result <;> simp [Except.bind]

/-! ### Steps, values and faults together -/

/-- Every step that a computation reports satisfies `P`, a fault it breaks off with satisfies `F`,
and a value that it gives satisfies `Q`. -/
structure Meets (x : Traced α β) (P : Event α → Prop) (F : Fault → Prop) (Q : β → Prop) :
    Prop where
  events : ∀ event ∈ x.events, P event
  fault : ∀ fault, x.result = .error fault → F fault
  value : ∀ b, x.result = .ok b → Q b

variable {P : Event α → Prop} {F : Fault → Prop} {Q Q' : β → Prop} {R : γ → Prop}

lemma Meets.pure {b : β} (hb : Q b) : (Pure.pure b : Traced α β).Meets P F Q where
  events _ h := absurd h List.not_mem_nil
  fault _ h := absurd h (by simp)
  value b' h := by
    obtain rfl : b = b' := by simpa using h
    exact hb

lemma Meets.emit {event : Event α} (h : P event) : (Traced.emit event).Meets P F fun _ => True where
  events event' h' := by
    obtain rfl := List.mem_singleton.mp h'
    exact h
  fault _ h := absurd h (by simp)
  value _ _ := trivial

lemma Meets.fail {fault : Fault} (h : F fault) : (Traced.fail fault : Traced α β).Meets P F Q where
  events _ h := absurd h List.not_mem_nil
  fault fault' h' := by
    obtain rfl : fault = fault' := by simpa using h'
    exact h
  value _ h := absurd h (by simp)

/-- A computation without reports reports nothing wrong. -/
lemma Meets.lift {x : Except Fault β} (hfault : ∀ fault, x = .error fault → F fault)
    (hvalue : ∀ b, x = .ok b → Q b) : (monadLift x : Traced α β).Meets P F Q where
  events _ h := absurd h List.not_mem_nil
  fault := hfault
  value := hvalue

/-- In a sequence, what the first part promises about its value is what the rest starts from. -/
lemma Meets.bind {x : Traced α β} {next : β → Traced α γ} (hx : x.Meets P F Q)
    (hnext : ∀ b, Q b → (next b).Meets P F R) : (x >>= next).Meets P F R := by
  cases hresult : x.result with
  | error fault =>
      refine ⟨fun event h => ?_, fun fault' h => ?_, fun c h => ?_⟩
      · rw [events_bind, hresult, List.append_nil] at h
        exact hx.events event h
      · rw [result_bind, hresult] at h
        obtain rfl : fault = fault' := by simpa [Except.bind] using h
        exact hx.fault fault hresult
      · rw [result_bind, hresult] at h
        exact absurd h (by simp [Except.bind])
  | ok b =>
      have hrest := hnext b (hx.value b hresult)
      refine ⟨fun event h => ?_, fun fault h => ?_, fun c h => ?_⟩
      · rw [events_bind, hresult, List.mem_append] at h
        exact h.elim (hx.events event) (hrest.events event)
      · rw [result_bind, hresult] at h
        exact hrest.fault fault h
      · rw [result_bind, hresult] at h
        exact hrest.value c h

end Traced

/-! ### Two computations -/

/-- Both results are the same fault, or both are values, related by `R`. -/
inductive Alike {β γ : Type} (R : β → γ → Prop) : Except Fault β → Except Fault γ → Prop where
  | fault (fault : Fault) : Alike R (.error fault) (.error fault)
  | value {b : β} {c : γ} (h : R b c) : Alike R (.ok b) (.ok c)

namespace Alike

variable {α β β' γ γ' : Type} {R R' : β → γ → Prop} {S : β' → γ' → Prop}

lemma refl (x : Except Fault β) : Alike (· = ·) x x := by
  cases x with
  | error fault => exact .fault fault
  | ok b => exact .value rfl

lemma mono {x : Except Fault β} {y : Except Fault γ} (h : Alike R x y)
    (hR : ∀ b c, R b c → R' b c) : Alike R' x y := by
  cases h with
  | fault fault => exact .fault fault
  | value h => exact .value (hR _ _ h)

/-- Sequences come out alike where their first parts do and the rests do from there. -/
lemma bind {x : Traced α β} {y : Traced α γ} {next : β → Traced α β'} {next' : γ → Traced α γ'}
    (h : Alike R x.result y.result)
    (hnext : ∀ b c, R b c → Alike S (next b).result (next' c).result) :
    Alike S (x >>= next).result (y >>= next').result := by
  rw [Traced.result_bind, Traced.result_bind]
  generalize x.result = given, y.result = given' at h
  cases h with
  | fault fault => exact .fault fault
  | value h => exact hnext _ _ h

/-- What comes after the same computation decides. -/
lemma bind_same {x : Traced α β} {next : β → Traced α β'} {next' : β → Traced α γ'}
    (hnext : ∀ b, Alike S (next b).result (next' b).result) :
    Alike S (x >>= next).result (x >>= next').result :=
  (refl x.result).bind fun b _ hb => hb ▸ hnext b

/-- Where the first computation gives a value, so does the second. -/
lemma exists_of_eq_ok {x : Except Fault β} {y : Except Fault γ} {b : β} (h : Alike R x y)
    (hx : x = .ok b) : ∃ c, y = .ok c ∧ R b c := by
  cases h with
  | fault => cases hx
  | value h =>
      obtain rfl := Except.ok.inj hx
      exact ⟨_, rfl, h⟩

end Alike

end LinProg
