/-!
What is found where a file is read.

* `ReadFailure`, `ReadFailure.message`: why a file cannot be read, and the sentence about it.
* `FileContent`, `FileContent.ofBytes`: the text of a file, or why there is none.
-/

namespace LinProg.Command

/-- Why a file cannot be read. -/
inductive ReadFailure where
  /-- The operating system refuses, in its own words. -/
  | refused (words : String) (code : Nat)
  /-- The bytes are not UTF-8. -/
  | notText
  deriving DecidableEq, Repr

namespace ReadFailure

/-- The sentence that reports why a file cannot be read. -/
def message : ReadFailure → String
  | refused words code => s!"{words} (os error {code})"
  | notText => "stream did not contain valid UTF-8"

/-- Nothing has the name. -/
def noSuchFile : ReadFailure := refused "No such file or directory" 2

/-- A path goes on behind a file. -/
def notFolder : ReadFailure := refused "Not a directory" 20

/-- A folder is read as a file. -/
def isFolder : ReadFailure := refused "Is a directory" 21

/-- A path, or a name in it, is longer than any can be. -/
def nameTooLong : ReadFailure := refused "File name too long" 36

/-- The refusal with a code, of those that only depend on the path. -/
def withCode? (code : Nat) : Option ReadFailure :=
  [noSuchFile, notFolder, isFolder, nameTooLong].find? fun failure =>
    match failure with
    | refused _ other => other == code
    | notText => false

end ReadFailure

/-- The text of a file, or why there is none. -/
abbrev FileContent := Except ReadFailure String

/-- The text that some bytes stand for. -/
def FileContent.ofBytes (bytes : ByteArray) : FileContent :=
  match String.fromUTF8? bytes with
  | some text => .ok text
  | none => .error .notText

end LinProg.Command
