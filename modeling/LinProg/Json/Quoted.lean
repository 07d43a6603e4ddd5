import LinProg.Json.Reader

/-!
Strings between quotes.

* `quote`: the written form of a string. Quotes, backslashes and control characters are escaped.
* `Reader.quoted`: reading the rest of a string behind its opening quote.
* `Reader.skipQuoted`: passing over it, whatever code points its escapes name.
-/

namespace LinProg.Json

/-! ### Writing -/

/-- The written form of a character within a string. -/
def escaped (c : Char) : List Char :=
  match c with
  | '"' => ['\\', '"']
  | '\\' => ['\\', '\\']
  | '\n' => ['\\', 'n']
  | '\r' => ['\\', 'r']
  | '\t' => ['\\', 't']
  | '\x08' => ['\\', 'b']
  | '\x0c' => ['\\', 'f']
  | c =>
    if c.toNat < 0x20 then
      ['\\', 'u', '0', '0', (c.toNat / 16).digitChar, (c.toNat % 16).digitChar]
    else [c]

/-- The written form of a string. -/
def quote (s : String) : List Char := '"' :: s.toList.flatMap escaped ++ ['"']

/-! ### Reading -/

/-- The character that a short escape stands for. -/
def shortEscape? : Char → Option Char
  | '"' => some '"'
  | '\\' => some '\\'
  | '/' => some '/'
  | 'b' => some '\x08'
  | 'f' => some '\x0c'
  | 'n' => some '\n'
  | 'r' => some '\r'
  | 't' => some '\t'
  | _ => none

/-- The value of a hexadecimal digit. -/
def hexValue? (c : Char) : Option Nat :=
  if c.isDigit then some (c.toNat - '0'.toNat)
  else if 'a' ≤ c ∧ c ≤ 'f' then some (c.toNat - 'a'.toNat + 10)
  else if 'A' ≤ c ∧ c ≤ 'F' then some (c.toNat - 'A'.toNat + 10)
  else none

/-- The number that four hexadecimal digits in front of a text stand for. The text ends too early
when fewer than four bytes are left of it. -/
def hexUnit (text : List Char) : Except Problem Nat :=
  if (text.take 4).foldl (fun size c => size + c.utf8Size) 0 < 4 then .error .unfinished
  else match (text.take 4).mapM hexValue? with
    | some [a, b, c, d] => .ok (((a * 16 + b) * 16 + c) * 16 + d)
    | _ => .error .malformed

/-- Whether a unit is the first of a pair. -/
def isLeading (unit : Nat) : Bool := 0xD800 ≤ unit && unit < 0xDC00

/-- Whether a unit is the second of a pair. -/
def isTrailing (unit : Nat) : Bool := 0xDC00 ≤ unit && unit < 0xE000

/-- The character that a pair of units stands for. -/
def pairChar (leading trailing : Nat) : Char :=
  Char.ofNat ((leading - 0xD800) * 0x400 + (trailing - 0xDC00) + 0x10000)

/-- Reads the second unit of a pair, behind the first one. -/
def trailingUnit (text : List Char) : Except Problem Nat :=
  match text with
  | [] | ['\\'] => .error .unfinished
  | '\\' :: 'u' :: rest => do
    let unit ← hexUnit rest
    if isTrailing unit then .ok unit else .error .malformed
  | _ => .error .malformed

/-- The character that an escape stands for, and how many characters the escape has behind the
backslash. -/
def escapeAt (text : List Char) : Except Problem (Char × Nat) :=
  match text with
  | [] => .error .unfinished
  | 'u' :: rest => do
    let unit ← hexUnit rest
    if isLeading unit then
      let trailing ← trailingUnit (rest.drop 4)
      .ok (pairChar unit trailing, 11)
    else if isTrailing unit then .error .malformed
    else .ok (Char.ofNat unit, 5)
  | c :: _ => match shortEscape? c with
    | some char => .ok (char, 1)
    | none => .error .malformed

/-- How many characters an escape has behind the backslash, whatever it stands for. -/
def escapeLength (text : List Char) : Except Problem Nat :=
  match text with
  | [] => .error .unfinished
  | 'u' :: rest => do
    discard (hexUnit rest)
    .ok 5
  | c :: _ => if (shortEscape? c).isSome then .ok 1 else .error .malformed

/-- The characters of a string up to its closing quote, and the text behind it. -/
def unquote (text : List Char) : Except Problem (List Char × List Char) :=
  match text with
  | [] => .error .unfinished
  | '"' :: rest => .ok ([], rest)
  | '\\' :: rest => do
    let (char, length) ← escapeAt rest
    let (chars, behind) ← unquote (rest.drop length)
    .ok (char :: chars, behind)
  | c :: rest =>
    if c.toNat < 0x20 then .error .malformed
    else do
      let (chars, behind) ← unquote rest
      .ok (c :: chars, behind)
termination_by text.length
decreasing_by all_goals (simp only [List.length_cons, List.length_drop]; omega)

/-- The text behind the closing quote of a string. -/
def behindQuote (text : List Char) : Except Problem (List Char) :=
  match text with
  | [] => .error .unfinished
  | '"' :: rest => .ok rest
  | '\\' :: rest => do
    let length ← escapeLength rest
    behindQuote (rest.drop length)
  | c :: rest => if c.toNat < 0x20 then .error .malformed else behindQuote rest
termination_by text.length
decreasing_by all_goals (simp only [List.length_cons, List.length_drop]; omega)

namespace Reader

/-- Reads the rest of a string behind its opening quote. -/
def quoted : Reader String := fun text => do
  let (chars, behind) ← unquote text
  return (String.ofList chars, behind)

/-- Passes over the rest of a string behind its opening quote. -/
def skipQuoted : Reader Unit := fun text => do
  return ((), ← behindQuote text)

end Reader

end LinProg.Json
