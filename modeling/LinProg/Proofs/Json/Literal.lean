import Mathlib
import LinProg.Json.Value

/-!
Number literals with something behind them.

* `Closes`: what may follow a value in a list or an object.
* `Reader.Extends`: a reader that reads the same in front of whatever closes its value, and leaves
  that. `extends_literal` says so of literals.
* `Reader.literal_toDigits`: the digits of a whole number of 64 bits are read back as that number.
-/

namespace LinProg.Json

/-- What follows a value in a list or an object, or nothing at all. -/
def Closes (rest : List Char) : Prop := ∀ c ∈ rest.head?, c = ',' ∨ c = ']' ∨ c = '}'

lemma closes_nil : Closes [] := fun c hc => by cases hc

lemma closes_cons {c : Char} {rest : List Char} (h : c = ',' ∨ c = ']' ∨ c = '}') :
    Closes (c :: rest) := by
  rintro d ⟨⟩
  exact h

/-- What closes a value begins with no other character. -/
lemma Closes.head?_ne {rest : List Char} (h : Closes rest) {c : Char}
    (hc : c ≠ ',' ∧ c ≠ ']' ∧ c ≠ '}') : rest.head? ≠ some c := by
  intro hhead
  obtain h | h | h := h c hhead
  · exact hc.1 h
  · exact hc.2.1 h
  · exact hc.2.2 h

namespace Reader

variable {β γ : Type} {m : Reader β} {f : β → Reader γ} {text left rest : List Char} {x : β}

/-! ### Running readers -/

/-- A sequence goes on with what its first part gives and leaves. -/
lemma bind_run (h : m text = .ok (x, left)) : (m >>= f) text = f x left := by
  simp [bind, StateT.bind, h, Except.bind]

/-- A sequence gives a value where both of its parts do. -/
lemma bind_run_eq_ok {y : γ} :
    (m >>= f) text = .ok (y, left) ↔
      ∃ x next, m text = .ok (x, next) ∧ f x next = .ok (y, left) := by
  cases hm : m text with
  | error problem => simp [bind, StateT.bind, hm, Except.bind]
  | ok result =>
      obtain ⟨x, next⟩ := result
      simp [bind, StateT.bind, hm, Except.bind]

/-! ### Something behind -/

/-- The reader reads the same in front of whatever closes its value, and leaves that. -/
structure Extends (m : Reader β) : Prop where
  append : ∀ {text left rest : List Char} {x : β}, Closes rest → m text = .ok (x, left) →
    m (text ++ rest) = .ok (x, left ++ rest)

lemma extends_pure (x : β) : Extends (pure x : Reader β) where
  append _ h := by
    obtain ⟨rfl, rfl⟩ := Prod.mk.inj (Except.ok.inj h)
    rfl

/-- A reader that always fails never leaves anything. -/
lemma extends_of_fails (h : ∀ text, ∃ problem, m text = .error problem) : Extends m where
  append {text} _ _ _ _ hok := by
    obtain ⟨problem, hfail⟩ := h text
    rw [hfail] at hok
    cases hok

lemma Extends.bind (hm : Extends m) (hf : ∀ x, Extends (f x)) : Extends (m >>= f) where
  append hrest h := by
    obtain ⟨x, next, hx, hy⟩ := bind_run_eq_ok.mp h
    rw [bind_run (hm.append hrest hx)]
    exact (hf x).append hrest hy

lemma Extends.ite {n : Reader β} {p : Prop} [Decidable p] (hm : Extends m) (hn : Extends n) :
    Extends (if p then m else n) := by
  split
  · exact hm
  · exact hn

/-- A reader that passes over a character and goes on, where the character is there, and does
something else where it is not, looks no further if its parts do not. -/
lemma extends_of_head {r other : Reader β} (c : Char) (hc : c ≠ ',' ∧ c ≠ ']' ∧ c ≠ '}')
    (hsome : ∀ text, r (c :: text) = m text)
    (hnone : ∀ text : List Char, text.head? ≠ some c → r text = other text)
    (hm : Extends m) (hother : Extends other) : Extends r where
  append {text _ rest _} hrest h := by
    cases text with
    | nil =>
        rw [hnone [] (by simp)] at h
        rw [List.nil_append, hnone rest (hrest.head?_ne hc)]
        exact hother.append hrest h
    | cons d text =>
        by_cases hd : d = c
        · subst hd
          rw [hsome] at h
          rw [List.cons_append, hsome]
          exact hm.append hrest h
        · have hhead : ∀ tail, (d :: tail).head? ≠ some c := fun tail heq => hd (by simpa using heq)
          rw [hnone _ (hhead _)] at h
          rw [List.cons_append, hnone _ (hhead _)]
          exact hother.append hrest h

/-! ### Literals -/

/-- The digits at the front end where the value is closed. -/
lemma digits_append (hrest : Closes rest) (text : List Char) :
    (text ++ rest).takeWhile Char.isDigit = text.takeWhile Char.isDigit ∧
      (text ++ rest).dropWhile Char.isDigit = text.dropWhile Char.isDigit ++ rest := by
  induction text with
  | nil =>
      cases rest with
      | nil => exact ⟨rfl, rfl⟩
      | cons c rest => obtain rfl | rfl | rfl := hrest c rfl <;> exact ⟨rfl, rfl⟩
  | cons c text ih => cases hc : c.isDigit <;> simp [hc, ih]

lemma extends_digits : Extends digits where
  append {text _ _ _} hrest h := by
    obtain ⟨rfl, rfl⟩ := Prod.mk.inj (Except.ok.inj h)
    obtain ⟨htake, hdrop⟩ := digits_append hrest text
    change Except.ok (_, _) = _
    rw [htake, hdrop]

lemma extends_someDigits : Extends someDigits := by
  refine extends_digits.bind fun text => ?_
  split
  · refine extends_of_fails fun left => ?_
    cases left with
    | nil => exact ⟨.unfinished, rfl⟩
    | cons c left => exact ⟨.malformed, rfl⟩
  · exact extends_pure _

lemma extends_minus : Extends minus := by
  refine extends_of_head '-' (by decide) (fun text => rfl) (fun text h => ?_)
    (extends_pure true) (extends_pure false)
  exact congrFun (if_neg h) text

lemma extends_wholePart : Extends wholePart := by
  refine extends_someDigits.bind fun text => ?_
  split
  · exact extends_of_fails fun left => ⟨.malformed, rfl⟩
  · exact extends_pure _

lemma extends_fraction : Extends fraction := by
  refine extends_of_head '.' (by decide) (fun text => rfl) (fun text h => ?_)
    (extends_someDigits.bind fun digits => extends_pure (some digits)) (extends_pure none)
  exact congrFun (if_neg h) text

lemma extends_exponentSign : Extends exponentSign := by
  -- the two signs are looked for one after the other
  have hminus : Extends fun text : List Char =>
      if text.head? = some '-' then .ok (some '-', text.drop 1) else .ok (none, text) :=
    extends_of_head '-' (by decide) (fun text => rfl) (fun text h => if_neg h)
      (extends_pure (some '-')) (extends_pure none)
  refine extends_of_head '+' (by decide) (fun text => rfl) (fun text h => ?_)
    (extends_pure (some '+')) hminus
  rw [exponentSign, bind_run (x := text) rfl]
  by_cases hhead : text.head? = some '-'
  · rw [if_pos hhead, hhead]
    rfl
  · rw [if_neg hhead]
    refine congrFun (?_ : _ = (pure none : Reader (Option Char))) text
    split
    · contradiction
    · contradiction
    · rfl

lemma extends_exponent : Extends exponent := by
  have hdigits : Extends (do return some (← exponentSign, ← someDigits)) :=
    extends_exponentSign.bind fun sign => extends_someDigits.bind fun digits => extends_pure _
  have hcapital : Extends fun text : List Char =>
      if text.head? = some 'E' then
        (do return some (← exponentSign, ← someDigits) : Reader _) (text.drop 1)
      else .ok (none, text) :=
    extends_of_head 'E' (by decide) (fun text => rfl) (fun text h => if_neg h) hdigits
      (extends_pure none)
  refine extends_of_head 'e' (by decide) (fun text => rfl) (fun text h => ?_) hdigits hcapital
  rw [exponent, bind_run (x := text) rfl]
  simp only [h, false_or]
  split
  · rfl
  · rfl

/-- A literal is read in front of whatever closes it. -/
theorem extends_literal : Extends literal :=
  extends_minus.bind fun _ => extends_wholePart.bind fun _ => extends_fraction.bind fun _ =>
    extends_exponent.bind fun _ =>
      (extends_pure _).ite (extends_of_fails fun _ => ⟨.malformed, rfl⟩)

end Reader

/-! ### Whole numbers -/

namespace Literal

lemma digitsValue_toDigits (n : ℕ) : digitsValue (Nat.toDigits 10 n) = n := by
  have hfold := @Nat.ofDigitChars_ten_toDigits n
  rw [Nat.ofDigitChars_eq_foldl] at hfold
  exact hfold

/-- Digits do not make a number smaller. -/
lemma le_foldl_digits (n : ℕ) (cs : List Char) :
    n ≤ cs.foldl (fun n c => 10 * n + digitValue c) n := by
  induction cs generalizing n with
  | nil => exact le_rfl
  | cons c cs ih => exact le_trans (by omega) (ih (10 * n + digitValue c))

/-- All digits are kept where the number fits into 64 bits. -/
lemma keepDigits_eq {n : ℕ} {cs : List Char}
    (h : cs.foldl (fun n c => 10 * n + digitValue c) n < wordLimit) :
    keepDigits n cs = (cs.foldl (fun n c => 10 * n + digitValue c) n, cs.length) := by
  induction cs generalizing n with
  | nil => rfl
  | cons c cs ih =>
      have hnext : 10 * n + digitValue c < wordLimit := (le_foldl_digits _ cs).trans_lt h
      rw [keepDigits, if_pos hnext, ih h]
      rfl

/-- Digits of a number of 64 bits stand for a double. -/
lemma isSome_magnitude?_of_digits {digits : List Char} (h : digitsValue digits < wordLimit) :
    (magnitude? ⟨false, digits, none, none⟩).isSome := by
  have hscientific : scientific ⟨false, digits, none, none⟩ = (digitsValue digits, 0) := by
    simp [scientific, keepDigits_eq h, digitsValue, keepDigits]
  simp [magnitude?, hscientific, scaleUp?]

/-- The digits of a number begin with a zero for zero alone. -/
lemma head?_toDigits_ne {n : ℕ} (hn : 0 < n) : (Nat.toDigits 10 n).head? ≠ some '0' := by
  induction n using Nat.strong_induction_on with
  | _ n ih =>
      by_cases h : n < 10
      · rw [Nat.toDigits_of_lt_base h, List.head?_cons]
        intro hzero
        exact hn.ne' (Nat.digitChar_eq_zero.mp (Option.some.inj hzero))
      · rw [Nat.toDigits_of_base_le (by decide) (not_lt.mp h),
          List.head?_append_of_ne_nil _ Nat.toDigits_ne_nil]
        exact ih (n / 10) (Nat.div_lt_self hn (by decide)) (by omega)

end Literal

namespace Reader

/-- Digits without a zero in front are read as a whole part. -/
lemma literal_of_digits {digits : List Char} (hdigits : ∀ c ∈ digits, c.isDigit)
    (hne : digits ≠ []) (hzero : ¬ (digits.head? = some '0' ∧ 1 < digits.length))
    (hvalue : Literal.digitsValue digits < Literal.wordLimit) :
    literal digits = .ok (⟨false, digits, none, none⟩, []) := by
  have htake : digits.takeWhile Char.isDigit = digits := List.takeWhile_eq_self_iff.mpr hdigits
  have hdrop : digits.dropWhile Char.isDigit = [] := List.dropWhile_eq_nil_iff.mpr hdigits
  have hminus : minus digits = .ok (false, digits) := by
    refine congrFun (if_neg fun hhead => ?_) digits
    exact absurd (hdigits '-' (List.mem_of_head? hhead)) (by decide)
  have hread : Reader.digits digits = .ok (digits, []) := by
    change Except.ok (_, _) = _
    rw [htake, hdrop]
  have hsome : someDigits digits = .ok (digits, []) := by
    rw [someDigits, bind_run hread, if_neg (by simpa using hne)]
    rfl
  have hwhole : wholePart digits = .ok (digits, []) := by
    rw [wholePart, bind_run hsome]
    exact congrFun (if_neg hzero) _
  have hfraction : fraction [] = .ok (none, []) := rfl
  have hexponent : exponent [] = .ok (none, []) := rfl
  rw [literal, bind_run hminus, bind_run hwhole, bind_run hfraction, bind_run hexponent]
  exact congrFun (if_pos (Literal.isSome_magnitude?_of_digits hvalue)) _

/-- The digits of a number of 64 bits are read back. -/
theorem literal_toDigits {n : ℕ} (h : n < Literal.wordLimit) :
    literal (Nat.toDigits 10 n) = .ok (⟨false, Nat.toDigits 10 n, none, none⟩, []) := by
  refine literal_of_digits (fun c hc => Nat.isDigit_of_mem_toDigits (by decide) (by decide) hc)
    Nat.toDigits_ne_nil ?_ (by rwa [Literal.digitsValue_toDigits])
  rintro ⟨hzero, hlong⟩
  cases n with
  | zero => exact absurd hlong (by decide)
  | succ n => exact Literal.head?_toDigits_ne (Nat.succ_pos n) hzero

end Reader

end LinProg.Json
