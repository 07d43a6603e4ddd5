import LinProg.Command.Run

/-!
Files in a tree of folders, in which commands can be run without an operating system.

* `FileTree`: a file or a folder.
* `Place`: a node of a tree with the folders around it. `Place.enter` goes on by one name,
  `Place.follow` along a path.
* `Place.read`: what is found where a path is read.
* `runAt`: what a command line gives at a place.
-/

namespace LinProg.Command

/-- A file, or a folder with what is in it by name. -/
inductive FileTree where
  | file (bytes : ByteArray)
  | folder (entries : List (String × FileTree))

/-- A node of a tree, with the folders that it lies in, the innermost first. -/
structure Place where
  node : FileTree
  around : List FileTree

namespace Place

/-- How many bytes a name in a folder may have. -/
def nameLimit : Nat := 255

/-- How many bytes a path may have. -/
def pathLimit : Nat := 4095

/-- The root of the tree that a place is in. -/
def root (p : Place) : Place :=
  match p.around.getLast? with
  | some outermost => ⟨outermost, []⟩
  | none => p

/-- The place around a place; the root is around itself. -/
def outer (p : Place) : Place :=
  match p.around with
  | [] => p
  | folder :: rest => ⟨folder, rest⟩

/-- The place that a name leads to. An empty name and `.` stay in a folder, and `..` leaves it. -/
def enter (p : Place) (name : String) : Except ReadFailure Place :=
  match p.node with
  | .file _ => .error .notFolder
  | .folder entries =>
    if name = "" ∨ name = "." then .ok p
    else if name = ".." then .ok p.outer
    else if nameLimit < name.utf8ByteSize then .error .nameTooLong
    else match entries.lookup name with
      | some node => .ok ⟨node, p.node :: p.around⟩
      | none => .error .noSuchFile

/-- The place that a path leads to, from the root where it begins with a slash. -/
def follow (p : Place) (path : String) : Except ReadFailure Place :=
  if path = "" then .error .noSuchFile
  else if pathLimit < path.utf8ByteSize then .error .nameTooLong
  else (path.splitOn "/").foldlM enter (if path.startsWith "/" then p.root else p)

/-- What is found where a path is read. -/
def read (p : Place) (path : String) : FileContent := do
  match (← p.follow path).node with
  | .file bytes => FileContent.ofBytes bytes
  | .folder _ => .error .isFolder

end Place

/-- What a command line gives at a place. -/
def runAt (wording : Wording) (p : Place) (words : List String) : Result :=
  Id.run (run wording (fun path => pure (p.read path)) words)

end LinProg.Command
