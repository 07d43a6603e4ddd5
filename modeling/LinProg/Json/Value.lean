import LinProg.Json.Literal
import LinProg.Json.Quoted
import LinProg.Decimal.Layout
import LinProg.Scalar

/-!
Single values: numbers, strings, lists, and values that may be missing.

* `Reader.unexpected`: what is wrong with a value that is not of the kind asked for.
* `NumberText`: how the numbers of a program are written and read; `Reader.number`,
  `writeNumber`.
* `Reader.natural`, `Reader.string`, `Reader.list`, `Reader.optional` and their written forms.
-/

namespace LinProg.Json

/-! ### Numbers -/

/-- How numbers are written and read. -/
class NumberText (α : Type) where
  /-- The written form of a number; none for one that JSON cannot write. -/
  write? : α → Option (List Char)
  /-- The number that a literal stands for. -/
  ofLiteral : Literal → α

/-- Doubles in JSON keep the point of a whole number and have an exponent where the point would be
far from the digits. -/
def doubleLayout : Decimal.Layout where
  positional := some (-5, 15)
  pointZero := true
  exponentSign := true
  tie := .toEven

/-- Finite doubles are written with their shortest digits; the others are no JSON numbers. -/
instance : NumberText Float where
  write? x := if Scalar.isFinite x then some (doubleLayout.text x).toList else none
  ofLiteral := Literal.toFloat

/-- The written form of nothing. -/
def null : List Char := "null".toList

/-- The written form of a number, or of nothing where there is none. -/
def writeNumber {α : Type} [NumberText α] (x : α) : List Char := (NumberText.write? x).getD null

/-- The written form of a count or an index. -/
def writeNatural (n : Nat) : List Char := Nat.toDigits 10 n

/-- The written form of a value that may be missing. -/
def writeOptional {β : Type} (write : β → List Char) : Option β → List Char
  | some x => write x
  | none => null

/-! ### Lists -/

/-- Texts with commas between them. -/
def commaSeparated : List (List Char) → List Char
  | [] => []
  | [x] => x
  | x :: y :: rest => x ++ ',' :: commaSeparated (y :: rest)

/-- The written form of a list. -/
def writeList {β : Type} (write : β → List Char) (xs : List β) : List Char :=
  '[' :: commaSeparated (xs.map write) ++ [']']

/-- The written form of an object with the given members. -/
def writeObject (members : List (String × List Char)) : List Char :=
  '{' :: commaSeparated (members.map fun (name, value) => quote name ++ ':' :: value) ++ ['}']

namespace Reader

/-! ### Reading single values -/

/-- Whether a character begins a number. -/
def beginsNumber (c : Char) : Bool := c == '-' || c.isDigit

/-- What is wrong with a value of another kind: it may have problems of its own. Of a list or an
object only the beginning is seen. -/
def unexpected {β : Type} : Reader β := do
  match (← get).head? with
  | some '[' | some '{' => throw .misshapen
  | some '"' => do
    advance
    discard quoted
    throw .misshapen
  | some 'n' => do
    word "null".toList
    throw .misshapen
  | some 't' => do
    word "true".toList
    throw .misshapen
  | some 'f' => do
    word "false".toList
    throw .misshapen
  | some c =>
    if beginsNumber c then do
      discard literal
      throw .misshapen
    else throw .malformed
  | none => throw .unfinished

/-- Reads a number that has a use. -/
def literalFor {β : Type} (use : Literal → Option β) : Reader β := do
  match ← peek with
  | some c =>
    if beginsNumber c then do
      match use (← literal) with
      | some x => return x
      | none => throw .misshapen
    else unexpected
  | none => throw .unfinished

/-- Reads a number. -/
def number {α : Type} [NumberText α] : Reader α := literalFor fun l => some (NumberText.ofLiteral l)

/-- Reads a count or an index. -/
def natural : Reader Nat := literalFor Literal.natural?

/-- Reads a string. -/
def string : Reader String := do
  match ← peek with
  | some '"' => do
    advance
    quoted
  | some _ => unexpected
  | none => throw .unfinished

/-- Reads nothing at all, written out. -/
def nothing : Reader Unit := do
  match ← peek with
  | some 'n' => word "null".toList
  | some _ => unexpected
  | none => throw .unfinished

/-- Reads a value that may be missing. -/
def optional {β : Type} (reader : Reader β) : Reader (Option β) := do
  match ← peek with
  | some 'n' => do
    word "null".toList
    return none
  | _ => return some (← reader)

/-! ### Reading lists -/

/-- Whether a list has a further element, whose beginning is then reached. -/
def hasElement (first : Bool) : Reader Bool := do
  match ← peek with
  | some ']' => return false
  | some c =>
    if first then return true
    else if c = ',' then do
      advance
      match ← peek with
      | some ']' => throw .malformed
      | some _ => return true
      | none => throw .unfinished
    else throw .malformed
  | none => throw .unfinished

/-- Reads the end of a list. -/
def endList : Reader Unit := do
  match ← peek with
  | some ']' => advance
  | some _ => throw .malformed
  | none => throw .unfinished

/-- Reads the elements of a list up to its end, in at most so many steps. -/
def elements {β : Type} (element : Reader β) : Nat → Bool → Reader (List β)
  | 0, _ => throw .unfinished
  | steps + 1, first => do
    if ← hasElement first then
      let x ← element
      let xs ← elements element steps false
      return x :: xs
    else return []

/-- Reads a list. -/
def list {β : Type} (element : Reader β) : Reader (List β) := do
  match ← peek with
  | some '[' => do
    advance
    let xs ← elements element (← steps) true
    endList
    return xs
  | some _ => unexpected
  | none => throw .unfinished

end Reader

end LinProg.Json
