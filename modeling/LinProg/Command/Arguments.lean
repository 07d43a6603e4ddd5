/-!
The command line.

* `Request`, `Arguments`: what is asked for, and whether progress is to be reported.
* `Arguments.parse?`: reading the words of a command line. Options may stand anywhere before the
  word `--`, and a short option may carry its value with it.
-/

namespace LinProg.Command

/-- What a command asks for. -/
inductive Request where
  /-- The solution of a model, in a format. -/
  | solve (file : String) (format : String)
  /-- The canonical form of a model. -/
  | standardForm (file : String)
  /-- Whether a file holds a model. -/
  | check (file : String)
  deriving DecidableEq, Repr

/-- The file that a request is about. -/
def Request.file : Request → String
  | solve file _ | standardForm file | check file => file

/-- A command line. -/
structure Arguments where
  verbose : Bool
  request : Request
  deriving DecidableEq, Repr

/-- The commands by name. -/
inductive Verb where
  | solve
  | standardForm
  | check
  deriving DecidableEq, Repr

/-- The command with a name. -/
def Verb.ofName? : String → Option Verb
  | "solve" => some solve
  | "standard-form" => some standardForm
  | "check" => some check
  | _ => none

/-- The format of a solution when none is asked for. -/
def defaultFormat : String := "pretty"

/-- What the words behind the name of a command have said so far. Nothing is said twice. -/
structure Draft where
  verbose : Bool := false
  format : Option String := none
  file : Option String := none
  deriving DecidableEq, Repr

namespace Draft

/-- Asks for reports of progress. -/
def setVerbose (d : Draft) : Option Draft :=
  if d.verbose then none else some { d with verbose := true }

/-- Names the format, which only solutions have. -/
def setFormat (verb : Verb) (d : Draft) (value : String) : Option Draft :=
  if verb = .solve ∧ d.format.isNone then some { d with format := some value } else none

/-- Names the file. -/
def setFile (d : Draft) (file : String) : Option Draft :=
  if d.file.isNone ∧ file ≠ "" then some { d with file := some file } else none

/-- The request that the words make, if they name a file. -/
def request? (verb : Verb) (d : Draft) : Option Request :=
  d.file.map fun file =>
    match verb with
    | .solve => .solve file (d.format.getD defaultFormat)
    | .standardForm => .standardForm file
    | .check => .check file

end Draft

/-! ### Words -/

/-- The kinds of words. -/
inductive Word where
  /-- The word behind which all words are plain. -/
  | separator
  /-- A long option with the value that is written with it. -/
  | long (name : String) (value : Option String)
  /-- Short options in a row. -/
  | short (options : List Char)
  /-- Any other word. -/
  | plain (text : String)
  deriving DecidableEq, Repr

/-- The kind of a word. -/
def Word.ofString (text : String) : Word :=
  match text.toList with
  | ['-', '-'] => separator
  | '-' :: '-' :: rest =>
    match rest.dropWhile (· != '=') with
    | '=' :: value => long (String.ofList (rest.takeWhile (· != '='))) (some (String.ofList value))
    | _ => long (String.ofList rest) none
  | '-' :: c :: rest => short (c :: rest)
  | _ => plain text

/-- What the short options in a row say. The format takes the rest of the row as its value; where
that is empty, it waits for the next word. -/
def Draft.addShort (verb : Verb) (d : Draft) : List Char → Option (Draft × Bool)
  | [] => some (d, false)
  | 'v' :: rest => do (← d.setVerbose).addShort verb rest
  | ['f'] => if verb = .solve then some (d, true) else none
  | 'f' :: '=' :: value => do return (← d.setFormat verb (String.ofList value), false)
  | 'f' :: value => do return (← d.setFormat verb (String.ofList value), false)
  | _ => none

/-- What the words behind the name of a command say. The flag `awaits` says that the next word is
the value of the format. -/
def Draft.add (verb : Verb) (d : Draft) (awaits : Bool) : List String → Option Draft
  | [] => if awaits then none else some d
  | text :: rest =>
    match Word.ofString text with
    | .plain text => do
      if awaits then (← d.setFormat verb text).add verb false rest
      else (← d.setFile text).add verb false rest
    | .separator => if awaits then none else rest.foldlM Draft.setFile d
    | .long name value =>
      if awaits then none
      else match name, value with
        | "verbose", none => do (← d.setVerbose).add verb false rest
        | "format", some value => do (← d.setFormat verb value).add verb false rest
        | "format", none => if verb = .solve then d.add verb true rest else none
        | _, _ => none
    | .short options => do
      if awaits then none
      else
        let (d, awaits) ← d.addShort verb options
        d.add verb awaits rest

/-- Reads a command line: a name, with the options of all commands in front of it, and the words of
the command. -/
def Arguments.parse? (words : List String) (verbose : Bool) : Option Arguments :=
  match words with
  | [] => none
  | text :: rest =>
    if text = "-v" ∨ text = "--verbose" then
      if verbose then none else Arguments.parse? rest true
    else do
      let verb ← Verb.ofName? text
      let draft ← Draft.add verb {} false rest
      return ⟨verbose || draft.verbose, ← draft.request? verb⟩

end LinProg.Command
