import LinProg.Command.Arguments
import LinProg.Command.File
import LinProg.Command.Report
import LinProg.ModelFile

/-!
The commands, as functions of a command line and of what its file holds.

* `Result`: the exit code with the texts on the two output streams.
* `load`: the program in a file. `execute`: what a request gives. `run`: what a command line
  gives.

The words in which a reader of JSON reports what is wrong with a text are its own, and handed to
these functions.
-/

namespace LinProg.Command

/-- The outcome of a command. -/
structure Result where
  code : Nat
  stdout : String
  stderr : String
  deriving DecidableEq, Repr

namespace Result

/-- The exit code of a command line that makes no sense. -/
def usageCode : Nat := 2

/-- The exit code of a broken precondition. -/
def faultCode : Nat := 101

/-- The result of a command line that makes no sense. -/
def usage : Result :=
  ⟨usageCode, "", "usage: (solve [-f FORMAT] | standard-form | check) [-v] FILE\n"⟩

/-- The result of a command that breaks off with a fault. -/
def ofFault (fault : Fault) : Result := ⟨faultCode, "", s!"broken precondition: {repr fault}\n"⟩

/-- The result of a command that cannot go on. -/
def failure (message : String) : Result := ⟨1, "", message ++ "\n"⟩

/-- The result of a command that answers. -/
def success (text : String) : Result := ⟨0, text, ""⟩

end Result

/-- The words for what is wrong with a text. -/
abbrev Wording := String → Json.Problem → String

/-- The program in a file, or the message that reports why there is none. -/
def load (wording : Wording) (content : FileContent) : Except String (Program Float) :=
  match content with
  | .error failure => .error s!"Error reading file: {failure.message}"
  | .ok text => (ModelFile.parse Solver.standard text).mapError (LoadError.message (wording text))

/-- The message about a model that has no answer. -/
def modelFailure (error : ModelError Float) : Result := .failure s!"Model error: {error.message}"

/-- What a request gives for the program in its file. A model without an optimum is reported, but is
no success. -/
def answer (request : Request) (p : Program Float) : Traced Float Result := do
  match request with
  | .solve _ format =>
    match ← Report.ofProgram p with
    | .error error => return modelFailure error
    | .ok report =>
      let code := if report.status = .feasible then 0 else 1
      return ⟨code, report.text format, ""⟩
  | .standardForm _ =>
    match ← p.build with
    | .error error => return modelFailure error
    | .ok (form, map) => return .success (standardFormText p.vars form map)
  | .check file =>
    return .success (s!"✓ {file} is valid\n" ++ (Summary.ofProgram p).text)

/-- What a request gives for what its file holds. -/
def execute (wording : Wording) (request : Request) (content : FileContent) : Traced Float Result :=
  match load wording content with
  | .error message => return .failure s!"✗ {request.file}: {message}"
  | .ok p => answer request p

/-- What a request gives in the end. The steps that are no mere details are reported on request. -/
def finish (verbose : Bool) (traced : Traced Float Result) : Result :=
  let result := match traced.result with
    | .ok result => result
    | .error fault => .ofFault fault
  let reported := traced.events.filter fun event => verbose && event.level = .debug
  let lines := reported.map fun event => event.line ++ "\n"
  { result with stderr := String.join lines ++ result.stderr }

/-- What a command line gives, where `read` finds the content of a file. -/
def run {m : Type → Type} [Monad m] (wording : Wording) (read : String → m FileContent)
    (words : List String) : m Result := do
  match Arguments.parse? words false with
  | none => return .usage
  | some arguments =>
    let content ← read arguments.request.file
    return finish arguments.verbose (execute wording arguments.request content)

end LinProg.Command
