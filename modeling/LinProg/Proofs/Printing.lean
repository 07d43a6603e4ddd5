import LinProg.Proofs.ColumnMap
import LinProg.Command.Report

/-!
What is printed, line by line.

* `printed`: lines as they are printed.
* `Report.lines`, `Report.text_json`: the lines of a report in JSON.
* `isDifference`, `Substitution.isDifference_text`: the difference of two columns can be told from
  the other expressions of variables as they are printed, since no number is written with an `x`
  (`Decimal.not_mem_plain`).
-/

namespace LinProg

namespace Command

/-- A text is put into another one as it is. -/
lemma toString_eq_self (s : String) : toString s = s := rfl

/-- Lines as they are printed. -/
def printed (lines : List String) : String := String.join (lines.map (· ++ "\n"))

@[simp] lemma printed_nil : printed [] = "" := rfl

@[simp] lemma printed_cons (line : String) (lines : List String) :
    printed (line :: lines) = line ++ "\n" ++ printed lines := by
  rw [printed, List.map_cons, String.join_cons, printed]

lemma printed_append (lines lines' : List String) :
    printed (lines ++ lines') = printed lines ++ printed lines' := by
  induction lines with
  | nil => simp
  | cons line lines ih => simp [ih, String.append_assoc]

/-! ### Reports in JSON -/

namespace Report

/-- The lines of the variables with their values. Behind each one but the last there is a comma. -/
def valueLines : List (String × Float) → List String
  | [] => []
  | (name, x) :: rest =>
    ["    \x7b",
      "      \"name\": " ++ String.ofList (Json.quote name) ++ ",",
      "      \"value\": " ++ String.ofList (Json.writeNumber x),
      if rest.isEmpty then "    \x7d" else "    \x7d,"] ++ valueLines rest

/-- The lines of a list of variables with their values. -/
def valuesLines (values : List (String × Float)) : List String :=
  if values.isEmpty then ["  \"values\": []"]
  else "  \"values\": [" :: valueLines values ++ ["  ]"]

/-- The lines of a report. -/
def lines (status : Status) (objective : Option Float) (pivots : ℕ)
    (values : List (String × Float)) : List String :=
  ["\x7b",
    s!"  \"status\": \"{status.name}\",",
    "  \"objective\": " ++ String.ofList (Json.writeOptional Json.writeNumber objective) ++ ",",
    s!"  \"pivots\": {pivots},"] ++ valuesLines values ++ ["\x7d"]

/-- Between its brackets, a block has its first item and the others behind a comma each. -/
lemma block_cons (opening closing : Char) (depth : ℕ) (item : List Char)
    (items : List (List Char)) :
    block opening closing depth (item :: items) =
      opening :: '\n' :: (indent (depth + 1) ++ item ++
        items.flatMap (fun other => ',' :: '\n' :: (indent (depth + 1) ++ other)) ++
          '\n' :: (indent depth ++ [closing])) := by
  have hlines : ∀ (first : List Char) (others : List (List Char)),
      [',', '\n'].intercalate (first :: others) =
        first ++ others.flatMap fun other => ',' :: '\n' :: other := by
    intro first others
    induction others generalizing first with
    | nil => simp
    | cons other others ih => simp [List.intercalate_cons_cons, ih]
  simp [block, hlines, List.flatMap_map]

/-- The object of a variable has four lines. -/
lemma indent_append_valueText (named : String × Float) :
    indent 2 ++ valueText 2 named = "    \x7b\n      \"name\": ".toList ++ Json.quote named.1 ++
      ",\n      \"value\": ".toList ++ Json.writeNumber named.2 ++ "\n    \x7d".toList := by
  have hname : Json.quote "name" = "\"name\"".toList := by decide
  have hvalue : Json.quote "value" = "\"value\"".toList := by decide
  rw [valueText, block_cons]
  simp [memberText, indent, hname, hvalue]

/-- The lines of variables are their objects with a comma in front of each one but the first. -/
lemma toList_valueLines (named : String × Float) (values : List (String × Float)) :
    (printed (valueLines (named :: values))).toList =
      indent 2 ++ valueText 2 named ++
        values.flatMap (fun other => ',' :: '\n' :: (indent 2 ++ valueText 2 other)) ++ ['\n'] := by
  induction values generalizing named with
  | nil =>
      rw [indent_append_valueText]
      simp [valueLines]
  | cons other values ih =>
      have hfirst : (printed (valueLines (named :: other :: values))).toList =
          indent 2 ++ valueText 2 named ++ ",\n".toList ++
            (printed (valueLines (other :: values))).toList := by
        rw [indent_append_valueText, valueLines, printed_append, String.toList_append]
        simp
      rw [hfirst, ih]
      simp

/-- The lines of the list are the list, behind its name. -/
lemma toList_valuesLines (values : List (String × Float)) :
    (printed (valuesLines values)).toList =
      "  \"values\": ".toList ++ block '[' ']' 1 (values.map (valueText 2)) ++ ['\n'] := by
  cases values with
  | nil => simp [valuesLines, block]
  | cons named values =>
      rw [List.map_cons, block_cons]
      simp [valuesLines, printed_append, toList_valueLines, indent, List.flatMap_map]

/-- A report in JSON consists of its lines. -/
theorem text_json (r : Report) :
    r.text "json" =
      printed (lines r.status (r.objective.bind Extended.number?) r.pivots r.values) := by
  have hnames : ∀ name ∈ ["status", "objective", "pivots", "values"],
      Json.quote name = '"' :: name.toList ++ ['"'] := by decide
  have hstatus : r.status.write = '"' :: r.status.name.toList ++ ['"'] := by
    cases r.status <;> decide
  rw [← String.toList_inj, text, if_pos rfl, json, block_cons, lines, printed_append,
    printed_append]
  simp only [String.toList_append, toList_valuesLines]
  simp [memberText, indent, hnames, hstatus, toString_eq_self, Json.writeNatural]

/-- Without values the list is written on one line. -/
example : Report.text ⟨.infeasible, none, 3, []⟩ "json" =
    "\x7b\n  \"status\": \"infeasible\",\n  \"objective\": null,\n  \"pivots\": 3,\n" ++
      "  \"values\": []\n\x7d\n" := by
  decide +kernel

end Report

/-! ### Expressions of variables -/

/-- Whether a text is the name of a column. -/
def isColumn : List Char → Bool
  | 'x' :: digits => !digits.isEmpty && digits.all Char.isDigit
  | _ => false

/-- Whether an expression is the difference of two columns. -/
def isDifference (expression : String) : Bool :=
  let first := expression.toList.takeWhile (· != ' ')
  let rest := expression.toList.dropWhile (· != ' ')
  isColumn first && rest.take 3 == " - ".toList && isColumn (rest.drop 3)

end Command

/-! ### Numbers -/

namespace Decimal

lemma not_mem_toDigits (n : ℕ) : 'x' ∉ Nat.toDigits 10 n := fun h => by
  have hdigit := Nat.isDigit_of_mem_toDigits (by decide) (by decide) h
  exact absurd hdigit (by decide)

lemma not_mem_ofScientific (significand : ℕ) (exponent : ℤ) :
    'x' ∉ (Digits.ofScientific significand exponent).digits := by
  intro h
  rw [Digits.ofScientific, List.mem_reverse] at h
  exact not_mem_toDigits significand (List.mem_reverse.mp (List.dropWhile_subset _ h))

lemma not_mem_shortest (s : Span) (tie : Tie) : 'x' ∉ (s.shortest tie).digits := by
  have hgetD : ∀ (found : Option Digits) (d : Digits), (∀ e ∈ found, 'x' ∉ e.digits) →
      'x' ∉ d.digits → 'x' ∉ (found.getD d).digits := by
    rintro (_ | e) d hfound hd
    · exact hd
    · exact hfound e rfl
  refine hgetD _ _ (fun e he => ?_) (not_mem_ofScientific _ _)
  obtain ⟨n, -, hn⟩ := List.exists_of_findSome?_eq_some he
  obtain ⟨significand, -, rfl⟩ := Option.map_eq_some_iff.mp hn
  exact not_mem_ofScientific _ _

lemma Layout.not_mem_positionalText (layout : Layout) {d : Digits} (h : 'x' ∉ d.digits) :
    'x' ∉ layout.positionalText d := by
  rw [positionalText]
  split
  · simp [h]
  · split
    · split <;> simp [h]
    · simp [mt List.mem_of_mem_take h, mt List.mem_of_mem_drop h]

/-- A number is written without an `x`. -/
lemma not_mem_plain (x : Float) : 'x' ∉ (plain x).toList := by
  have hmagnitude : ∀ mantissa exponent, 'x' ∉ plainLayout.magnitudeText mantissa exponent := by
    intro mantissa exponent
    rw [Layout.magnitudeText]
    split
    · decide
    · exact Layout.not_mem_positionalText _ (not_mem_shortest _ _)
  have hsigned : ∀ negative magnitude, 'x' ∉ magnitude → 'x' ∉ signed negative magnitude := by
    intro negative magnitude h
    rw [signed]
    split <;> simp [h]
  rw [plain, Layout.text, textWith]
  split
  · decide
  · rw [String.toList_ofList]
    exact hsigned _ _ (by decide)
  · rw [String.toList_ofList]
    exact hsigned _ _ (hmagnitude _ _)

end Decimal

namespace Substitution

open Command

lemma isColumn_toDigits (n : ℕ) : isColumn ('x' :: Nat.toDigits 10 n) = true := by
  have hdigits : (Nat.toDigits 10 n).all Char.isDigit = true :=
    List.all_eq_true.mpr fun c hc => Nat.isDigit_of_mem_toDigits (by decide) (by decide) hc
  simp [isColumn, hdigits, Nat.toDigits_ne_nil]

/-- What begins without an `x`, up to a blank, is no difference of columns. -/
lemma isDifference_of_not_mem {expression : String} {first rest : List Char}
    (htext : expression.toList = first ++ ' ' :: rest) (h : 'x' ∉ first) :
    isDifference expression = false := by
  have hcolumn : isColumn (expression.toList.takeWhile (· != ' ')) = false := by
    rw [htext]
    cases first with
    | nil => rfl
    | cons c cs =>
        have hc : c ≠ 'x' := fun hc => h (hc ▸ List.mem_cons_self)
        by_cases hblank : c = ' '
        · rw [hblank]
          rfl
        · simp [hblank, isColumn, hc]
  simp only [isDifference, hcolumn, Bool.false_and]

/-- A difference of two columns, and no other expression, is printed as one. -/
theorem isDifference_text (s : Substitution Float) : isDifference s.text = s.isSplit := by
  cases s with
  | shifted lower column =>
      have htext : (shifted lower column).text.toList =
          (Decimal.plain lower).toList ++ ' ' :: '+' :: ' ' :: 'x' :: Nat.toDigits 10 column := by
        simp [text, toString_eq_self]
      exact isDifference_of_not_mem htext (Decimal.not_mem_plain lower)
  | reflected upper column =>
      have htext : (reflected upper column).text.toList =
          (Decimal.plain upper).toList ++ ' ' :: '-' :: ' ' :: 'x' :: Nat.toDigits 10 column := by
        simp [text, toString_eq_self]
      exact isDifference_of_not_mem htext (Decimal.not_mem_plain upper)
  | split positive negative =>
      have htext : (split positive negative : Substitution Float).text.toList =
          'x' :: Nat.toDigits 10 positive ++
            ' ' :: '-' :: ' ' :: 'x' :: Nat.toDigits 10 negative := by
        simp [text, toString_eq_self]
      have hfirst : ∀ c ∈ 'x' :: Nat.toDigits 10 positive, (c != ' ') = true := by
        rintro c hc
        obtain rfl | hc := List.mem_cons.mp hc
        · rfl
        · have hdigit := Nat.isDigit_of_mem_toDigits (by decide) (by decide) hc
          exact bne_iff_ne.mpr fun hblank => absurd (hblank ▸ hdigit) (by decide)
      rw [isDifference, htext, List.takeWhile_append_of_pos hfirst,
        List.dropWhile_append_of_pos hfirst]
      simp [isColumn_toDigits, isSplit]

end Substitution

end LinProg
