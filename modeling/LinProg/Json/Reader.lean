/-!
Reading JSON texts from left to right.

A reader takes what it needs from the front of a text. The first thing that is wrong decides,
whatever comes after it.

* `Problem`: the ways in which a text fails to be read.
* `Reader`, `Reader.document`: a reader, and the reading of a whole text.
* `Reader.peek`, `advance`, `word`: the next character, and fixed words.
-/

namespace LinProg.Json

/-- The ways in which a text fails to be read. -/
inductive Problem where
  /-- The text is not JSON. -/
  | malformed
  /-- The text is JSON of another shape than the one asked for. -/
  | misshapen
  /-- The text ends too early. -/
  | unfinished
  deriving DecidableEq, Repr

/-- Reads a value from the front of a text and leaves the rest. -/
abbrev Reader (β : Type) := StateT (List Char) (Except Problem) β

/-- The characters that may stand between the parts of a text. -/
def isBlank (c : Char) : Bool := c == ' ' || c == '\n' || c == '\t' || c == '\r'

namespace Reader

/-- The next character that is not blank, left in place. -/
def peek : Reader (Option Char) := do
  modify (List.dropWhile isBlank)
  return (← get).head?

/-- Passes over a character. -/
def advance : Reader Unit := modify (List.drop 1)

/-- Passes over the rest of a word. -/
def word : List Char → Reader Unit
  | [] => return
  | c :: cs => do
    match ← get with
    | [] => throw .unfinished
    | d :: rest =>
      if d = c then
        set rest
        word cs
      else throw .malformed

/-- How many steps a loop can take that passes over a character each time. -/
def steps : Reader Nat := return (← get).length + 1

/-- Reads a whole text: nothing but blanks may follow the value. -/
def document {β : Type} (reader : Reader β) (text : String) : Except Problem β := do
  let whole : Reader β := do
    let value ← reader
    match ← peek with
    | none => return value
    | some _ => throw .malformed
  whole.run' text.toList

end Reader

end LinProg.Json
