import LinProg.Proofs.Json.Literal

/-!
Single values and lists that are written are read back.

* `unquote_escaped`: strings, of any characters.
* `Reader.Reads`: a reader reads a text as a value, in front of whatever closes the value.
* `Reader.Refuses`: a reader refuses a text, in front of whatever closes a value.
* `Reader.reads_natural`, `Reader.reads_number`: numbers; `ReadsBack` is what has to hold of how
  they are written.
* `Reader.reads_optional_none`, `reads_optional_some`, `reads_list`: values that may be missing, and
  lists of values that are read.
-/

namespace LinProg.Json

/-! ### Strings -/

/-- The code of a control character has four digits, which stand for it. -/
lemma hexUnit_control {n : ℕ} (hn : n < 0x20) (text : List Char) :
    hexUnit ('0' :: '0' :: (n / 16).digitChar :: (n % 16).digitChar :: text) = .ok n := by
  have hcode : ∀ n < 0x20, hexUnit ['0', '0', (n / 16).digitChar, (n % 16).digitChar] = .ok n := by
    decide
  rw [← hcode n hn, hexUnit, hexUnit]
  rfl

/-- A control character is read back from its code. -/
lemma escapeAt_control {c : Char} (hc : c.toNat < 0x20) (text : List Char) :
    escapeAt ('u' :: '0' :: '0' :: (c.toNat / 16).digitChar :: (c.toNat % 16).digitChar :: text) =
      .ok (c, 5) := by
  have hleading : isLeading c.toNat = false := by
    simp only [isLeading, Bool.and_eq_false_iff, decide_eq_false_iff_not]
    omega
  have htrailing : isTrailing c.toNat = false := by
    simp only [isTrailing, Bool.and_eq_false_iff, decide_eq_false_iff_not]
    omega
  simp [escapeAt, hexUnit_control hc, bind, Except.bind, hleading, htrailing]

/-- A character in its written form is read back in front of what is read back. -/
lemma unquote_escaped_append {text chars behind : List Char}
    (h : unquote text = .ok (chars, behind)) (c : Char) :
    unquote (escaped c ++ text) = .ok (c :: chars, behind) := by
  unfold escaped
  split
  case h_8 =>
    rename_i hquote hbackslash _ _ _ _ _
    split
    · rename_i hcontrol
      simp only [List.cons_append, List.nil_append]
      rw [unquote, escapeAt_control hcontrol]
      change (unquote text >>= _) = _
      rw [h]
      rfl
    · rename_i hplain
      rw [List.cons_append, List.nil_append, unquote, if_neg hplain, h]
      · rfl
      · exact hquote
      · exact hbackslash
  all_goals
    simp only [List.cons_append, List.nil_append]
    rw [unquote]
    change (unquote text >>= _) = _
    rw [h]
    rfl

/-- A string between quotes is read back, whatever characters it has. -/
theorem unquote_escaped (cs text : List Char) :
    unquote (cs.flatMap escaped ++ '"' :: text) = .ok (cs, text) := by
  induction cs with
  | nil => rw [List.flatMap_nil, List.nil_append, unquote]
  | cons c cs ih =>
      rw [List.flatMap_cons, List.append_assoc]
      exact unquote_escaped_append ih c

namespace Reader

variable {β γ : Type} {r : Reader β} {text rest : List Char} {x : β} {c : Char}

/-- The reader reads the text as the value in front of whatever closes it. The text begins neither
with a blank nor with the end of a list. -/
structure Reads (r : Reader β) (text : List Char) (x : β) : Prop where
  begins : ∃ c tail, text = c :: tail ∧ isBlank c = false ∧ c ≠ ']'
  run : ∀ {rest : List Char}, Closes rest → r (text ++ rest) = .ok (x, rest)

/-- What is made of a value that is read. -/
lemma Reads.bind {f : β → Reader γ} {y : γ} (h : Reads r text x) (hf : f x = pure y) :
    Reads (r >>= f) text y where
  begins := h.begins
  run hrest := by
    rw [bind_run (h.run hrest), hf]
    rfl

/-- The next character that is not blank is left in place. -/
lemma peek_cons (hc : isBlank c = false) (text : List Char) :
    peek (c :: text) = .ok (some c, c :: text) := by
  have hdrop : (c :: text).dropWhile isBlank = c :: text := by simp [hc]
  change Except.ok ((List.dropWhile isBlank (c :: text)).head?, _) = _
  rw [hdrop]
  rfl

lemma advance_cons (c : Char) (text : List Char) : advance (c :: text) = .ok ((), text) := rfl

lemma steps_run (text : List Char) : steps text = .ok (text.length + 1, text) := rfl

/-- Nothing but the value is read from its text alone. -/
lemma Reads.document_eq (h : Reads r text x) : document r (String.ofList text) = .ok x := by
  have hrun := h.run closes_nil
  rw [List.append_nil] at hrun
  rw [document, String.toList_ofList, StateT.run', bind_run hrun]
  rfl

/-! ### Refusals -/

section Refusals

variable {problem : Problem}

/-- The reader refuses the text, in front of whatever closes a value. -/
structure Refuses (r : Reader β) (text : List Char) (problem : Problem) : Prop where
  run : ∀ {rest : List Char}, Closes rest → r (text ++ rest) = .error problem

/-- A sequence breaks off where its first part does. -/
lemma bind_error {r : Reader β} {f : β → Reader γ} (h : r text = .error problem) :
    (r >>= f) text = .error problem := by
  simp [bind, StateT.bind, h, Except.bind]

lemma Refuses.bind {r : Reader β} (h : Refuses r text problem) (f : β → Reader γ) :
    Refuses (r >>= f) text problem where
  run hrest := bind_error (h.run hrest)

lemma Refuses.document_eq {r : Reader β} (h : Refuses r text problem) :
    document r (String.ofList text) = .error problem := by
  have hrun := h.run closes_nil
  rw [List.append_nil] at hrun
  rw [document, String.toList_ofList, StateT.run', bind_error hrun]
  rfl

/-- Nothing is no number, where one has to be. -/
lemma refuses_number_null {α : Type} [NumberText α] :
    Refuses (number : Reader α) null .misshapen where
  run _ := rfl

end Refusals

/-! ### Numbers -/

/-- A character that begins a number begins nothing else. -/
lemma of_beginsNumber (h : beginsNumber c = true) : isBlank c = false ∧ c ≠ ']' ∧ c ≠ 'n' := by
  have hne : ∀ {d : Char}, beginsNumber d = false → c ≠ d := by
    rintro d hd rfl
    rw [hd] at h
    cases h
  refine ⟨?_, hne rfl, hne rfl⟩
  simp only [isBlank, Bool.or_eq_false_iff, beq_eq_false_iff_ne]
  exact ⟨⟨⟨hne rfl, hne rfl⟩, hne rfl⟩, hne rfl⟩

/-- A literal begins with a sign or a digit. -/
lemma exists_beginsNumber_of_literal {l : Literal} {left : List Char}
    (h : literal text = .ok (l, left)) :
    ∃ c tail, text = c :: tail ∧ beginsNumber c = true := by
  obtain ⟨negative, next, hminus, h⟩ := bind_run_eq_ok.mp h
  obtain ⟨whole, next', hwhole, -⟩ := bind_run_eq_ok.mp h
  cases text with
  | nil =>
      obtain ⟨-, rfl⟩ := Prod.mk.inj (Except.ok.inj hminus)
      cases hwhole
  | cons c tail =>
      refine ⟨c, tail, rfl, ?_⟩
      by_cases hc : c = '-'
      · rw [hc]
        rfl
      · have hplain : minus (c :: tail) = .ok (false, c :: tail) :=
          congrFun (if_neg fun hhead => hc (Option.some.inj hhead)) _
        obtain ⟨-, rfl⟩ := Prod.mk.inj (Except.ok.inj (hplain.symm.trans hminus))
        obtain ⟨digits, next, hdigits, -⟩ := bind_run_eq_ok.mp hwhole
        by_contra hnumber
        have hdigit : c.isDigit = false := by
          simp only [beginsNumber, Bool.or_eq_true, not_or] at hnumber
          exact Bool.eq_false_of_not_eq_true hnumber.2
        have hnone : Reader.digits (c :: tail) = .ok ([], c :: tail) := by
          change Except.ok (_, _) = _
          simp [hdigit]
        rw [someDigits, bind_run hnone] at hdigits
        cases hdigits

/-- A literal that has a use is read as what it is used for. -/
lemma reads_literalFor {use : Literal → Option β} {l : Literal} (h : literal text = .ok (l, []))
    (huse : use l = some x) : Reads (literalFor use) text x where
  begins := by
    obtain ⟨c, tail, htext, hc⟩ := exists_beginsNumber_of_literal h
    exact ⟨c, tail, htext, (of_beginsNumber hc).1, (of_beginsNumber hc).2.1⟩
  run {rest} hrest := by
    obtain ⟨c, tail, rfl, hc⟩ := exists_beginsNumber_of_literal h
    have hread : literal (c :: (tail ++ rest)) = .ok (l, rest) := extends_literal.append hrest h
    rw [literalFor, List.cons_append, bind_run (peek_cons (of_beginsNumber hc).1 _)]
    simp only [hc, if_true]
    rw [bind_run hread, huse]
    rfl

/-- The digits of a number of 64 bits are read as that number. -/
lemma reads_natural {n : ℕ} (h : n < Literal.wordLimit) : Reads natural (writeNatural n) n := by
  refine reads_literalFor (literal_toDigits h) ?_
  simp [Literal.natural?, Literal.digitsValue_toDigits, h]

end Reader

/-- The number is written, and its text is read as the number, with nothing left. Not all finite
doubles are read back: a literal with a fraction or an exponent is rounded more than once. -/
def ReadsBack {α : Type} [NumberText α] (x : α) : Prop :=
  (do
    let (l, left) ← (Reader.literal (← NumberText.write? x)).toOption
    return (NumberText.ofLiteral l, left)) = some (x, [])

instance {α : Type} [NumberText α] [DecidableEq α] (x : α) : Decidable (ReadsBack x) :=
  inferInstanceAs (Decidable (_ = _))

lemma readsBack_iff {α : Type} [NumberText α] {x : α} :
    ReadsBack x ↔ ∃ text l, NumberText.write? x = some text ∧
      Reader.literal text = .ok (l, []) ∧ NumberText.ofLiteral l = x := by
  constructor
  · intro h
    obtain ⟨text, hwrite, h⟩ := Option.bind_eq_some_iff.mp h
    obtain ⟨⟨l, left⟩, hread, h⟩ := Option.bind_eq_some_iff.mp h
    obtain ⟨hx, rfl⟩ := Prod.mk.inj (Option.some.inj h)
    refine ⟨text, l, hwrite, ?_, hx⟩
    cases hresult : Reader.literal text with
    | error problem => simp [hresult, Except.toOption] at hread
    | ok result =>
        rw [hresult] at hread
        rw [Option.some.inj hread]
  · rintro ⟨text, l, hwrite, hread, hx⟩
    simp [ReadsBack, hwrite, hread, hx, Except.toOption]

namespace Reader

variable {β γ : Type} {r : Reader β} {text rest : List Char} {x : β} {c : Char}

/-- A number that is read back is read where it is written. -/
lemma reads_number {α : Type} [NumberText α] {x : α} (h : ReadsBack x) :
    Reads number (writeNumber x) x := by
  obtain ⟨text, l, hwrite, hliteral, hx⟩ := readsBack_iff.mp h
  rw [writeNumber, hwrite, Option.getD_some]
  exact reads_literalFor hliteral (congrArg some hx)

/-! ### Values that may be missing -/

/-- Nothing is read where nothing is written. -/
lemma reads_optional_none : Reads (optional r) null none where
  begins := ⟨'n', _, rfl, rfl, by decide⟩
  run hrest := rfl

/-- A value is read where it is there. -/
lemma reads_optional_some (h : Reads r text x) (hnull : text.head? ≠ some 'n') :
    Reads (optional r) text (some x) where
  begins := h.begins
  run {rest} hrest := by
    have hrun := h.run hrest
    obtain ⟨c, tail, rfl, hblank, -⟩ := h.begins
    rw [List.cons_append] at hrun ⊢
    rw [optional, bind_run (peek_cons hblank _)]
    have hc : c ≠ 'n' := fun hc => hnull (by rw [hc]; rfl)
    simp only [↓Char.isValue, Option.some.injEq, hc, imp_self]
    rw [bind_run hrun]
    rfl

/-! ### Lists -/

/-- The items of a list are the first one and the others with a comma in front of each. -/
lemma commaSeparated_cons (item : List Char) (items : List (List Char)) :
    commaSeparated (item :: items) = item ++ items.flatMap fun other => ',' :: other := by
  induction items generalizing item with
  | nil => simp [commaSeparated]
  | cons other items ih => rw [commaSeparated, ih, List.flatMap_cons, List.cons_append]

section List

variable {element : Reader β} {write : β → List Char} {xs : List β} {limit : ℕ}

/-- An element is reached at the beginning of a list. -/
lemma Reads.hasElement_first (h : Reads element text x) (rest : List Char) :
    hasElement true (text ++ rest) = .ok (true, text ++ rest) := by
  obtain ⟨c, tail, rfl, hblank, hc⟩ := h.begins
  rw [List.cons_append, hasElement, bind_run (peek_cons hblank _)]
  simp only [↓reduceIte]
  rfl

/-- A further element is reached behind a comma. -/
lemma Reads.hasElement_next (h : Reads element text x) (rest : List Char) :
    hasElement false (',' :: (text ++ rest)) = .ok (true, text ++ rest) := by
  obtain ⟨c, tail, rfl, hblank, hc⟩ := h.begins
  rw [List.cons_append, hasElement, bind_run (peek_cons rfl _)]
  simp only [↓Char.isValue, Char.reduceEq, imp_self, Bool.false_eq_true, ↓reduceIte]
  rw [bind_run (advance_cons _ _), bind_run (peek_cons hblank _)]
  simp only
  rfl

/-- The written form of the elements behind others. -/
def writeBehind (write : β → List Char) (xs : List β) : List Char :=
  xs.flatMap fun x => ',' :: write x

lemma commaSeparated_map_cons (x : β) (xs : List β) :
    commaSeparated ((x :: xs).map write) = write x ++ writeBehind write xs := by
  rw [List.map_cons, commaSeparated_cons, writeBehind, List.flatMap_map]

/-- The comma of the next element, or the end, closes an element. -/
lemma closes_writeBehind (hc : c = ']' ∨ c = '}') (write : β → List Char) (xs : List β)
    (rest : List Char) : Closes (writeBehind write xs ++ c :: rest) := by
  cases xs with
  | nil => exact closes_cons (.inr hc)
  | cons x xs => exact closes_cons (.inl rfl)

/-- Each element has a character at least, if only the comma or the end behind it. -/
lemma length_lt_of_commaSeparated (write : β → List Char) (xs : List β) (c : Char)
    (rest : List Char) :
    xs.length < (commaSeparated (xs.map write) ++ c :: rest).length + 1 := by
  have hbehind : ∀ xs : List β, xs.length ≤ (writeBehind write xs).length := by
    intro xs
    induction xs with
    | nil => exact le_rfl
    | cons x xs ih =>
        simp only [writeBehind, List.flatMap_cons, List.length_append, List.length_cons] at ih ⊢
        omega
  cases xs with
  | nil => exact Nat.succ_pos _
  | cons x xs =>
      have := hbehind xs
      rw [commaSeparated_map_cons]
      simp only [List.length_append, List.length_cons]
      omega

/-- The elements behind others are read up to the end of the list. -/
lemma elements_writeBehind (h : ∀ x ∈ xs, Reads element (write x) x) (hlimit : xs.length < limit)
    (rest : List Char) :
    elements element limit false (writeBehind write xs ++ ']' :: rest) = .ok (xs, ']' :: rest) := by
  induction xs generalizing limit with
  | nil =>
      cases limit with
      | zero => exact absurd hlimit (Nat.lt_irrefl 0)
      | succ limit => rfl
  | cons x xs ih =>
      cases limit with
      | zero => exact absurd hlimit (Nat.not_lt_zero _)
      | succ limit =>
          have hx := h x (by simp)
          have hread := hx.run (closes_writeBehind (.inl rfl) write xs rest)
          have hxs := ih (fun x hx => h x (by simp [hx])) (Nat.lt_of_succ_lt_succ hlimit)
          have htext : writeBehind write (x :: xs) ++ ']' :: rest =
              ',' :: (write x ++ (writeBehind write xs ++ ']' :: rest)) := by
            simp [writeBehind]
          rw [htext, elements, bind_run (hx.hasElement_next _), if_pos rfl, bind_run hread,
            bind_run hxs]
          rfl

/-- The elements of a list are read up to its end. -/
lemma elements_commaSeparated (h : ∀ x ∈ xs, Reads element (write x) x) (hlimit : xs.length < limit)
    (rest : List Char) :
    elements element limit true (commaSeparated (xs.map write) ++ ']' :: rest) =
      .ok (xs, ']' :: rest) := by
  cases limit with
  | zero => exact absurd hlimit (Nat.not_lt_zero _)
  | succ limit =>
      cases xs with
      | nil => rfl
      | cons x xs =>
          have hx := h x (by simp)
          have hread := hx.run (closes_writeBehind (.inl rfl) write xs rest)
          have hxs := elements_writeBehind (fun x hx => h x (by simp [hx]))
            (Nat.lt_of_succ_lt_succ hlimit) rest
          rw [commaSeparated_map_cons, List.append_assoc, elements,
            bind_run (hx.hasElement_first _), if_pos rfl, bind_run hread, bind_run hxs]
          rfl

/-- A list is read where its elements are. -/
lemma reads_list (h : ∀ x ∈ xs, Reads element (write x) x) :
    Reads (list element) (writeList write xs) xs where
  begins := ⟨'[', _, rfl, rfl, by decide⟩
  run {rest} _ := by
    have hclose : endList (']' :: rest) = .ok ((), rest) := rfl
    have hitems := elements_commaSeparated h (length_lt_of_commaSeparated write xs ']' rest) rest
    rw [writeList, List.append_assoc, List.singleton_append, List.cons_append, list,
      bind_run (peek_cons rfl _)]
    simp only
    rw [bind_run (advance_cons _ _), bind_run (steps_run _), bind_run hitems, bind_run hclose]
    rfl

end List

end Reader

end LinProg.Json
