import ColonMachine.Input.Stream

/-!
# Files

A command reads files from a tree of directories.  A path is resolved from the working directory,
step by step; every step but the last has to be a directory.  A directory can be opened like a
file, but not read.

Above the working directory nothing is known but that there are directories, up to the root.
-/

namespace ColonMachine

/-- A place that a path can lead to. -/
inductive Place where
  /-- A directory, given by its path from the working directory. -/
  | directory (path : List Text)
  /-- A directory above the working directory. -/
  | above
  /-- A file with its content. -/
  | file (content : Text)
  deriving Repr, DecidableEq

/-- A file that was opened. -/
structure File where
  /-- What it holds, under the name it was opened by. -/
  stream : Stream
  /-- What closing it fails with. -/
  closing : Option Failure := none

/-- The files of a working directory, each with its path. -/
structure FileTree where
  /-- The directories, by their paths. -/
  directories : List (List Text) := [[]]
  /-- The files, by their paths. -/
  files : List (List Text × Text) := []

namespace FileTree

/-- The byte between the steps of a path. -/
def slash : UInt8 := 47

/-- All directories on the way to a path. -/
def ancestors (path : List Text) : List (List Text) := (List.range path.length).map path.take

/-- Adds a file, or, if its name ends in a slash, an empty directory; the directories on the way
are made as needed. -/
def add (name content : Text) (tree : FileTree) : FileTree :=
  let path := (name.splitAt slash).filter fun step => !step.isEmpty && step != utf8 "."
  if name.getLast? == some slash then
    { tree with directories := path :: ancestors path ++ tree.directories }
  else
    { directories := ancestors path ++ tree.directories
      files := (path, content) :: tree.files }

/-! ## Resolving paths -/

/-- What goes wrong on a path. -/
inductive Problem where
  /-- There is nothing of the name. -/
  | missing
  /-- A step leads out of something that is not a directory. -/
  | notDirectory
  /-- A name or the whole path is too long. -/
  | tooLong
  /-- The path holds a zero byte. -/
  | invalid
  deriving Repr, DecidableEq

/-- The wording of what goes wrong. -/
def Problem.wording : Problem → Text
  | missing => utf8 "no such file or directory"
  | notDirectory => utf8 "not a directory"
  | tooLong => utf8 "file name too long"
  | invalid => utf8 "invalid argument"

/-- No name may be longer than this. -/
def nameLimit : Nat := 255

/-- Every path must be shorter than this. -/
def pathLimit : Nat := 4096

/-- The place one step further. -/
def step (tree : FileTree) (place : Place) (name : Text) : Except Problem Place :=
  let stays := name.isEmpty || name == utf8 "."
  let up := name == utf8 ".."
  match place with
  | .file _ => .error .notDirectory
  | .above =>
    if stays || up then .ok .above
    else if nameLimit < name.length then .error .tooLong
    else .error .missing
  | .directory path =>
    if stays then .ok place
    else if up then .ok (if path.isEmpty then .above else .directory path.dropLast)
    else if nameLimit < name.length then .error .tooLong
    else
      let path := path ++ [name]
      match tree.files.lookup path with
      | some content => .ok (.file content)
      | none => if tree.directories.contains path then .ok (.directory path) else .error .missing

/-- The place that a path leads to. -/
def resolve (tree : FileTree) (path : Text) : Except Problem Place :=
  if path.contains 0 then .error .invalid
  else if path.isEmpty then .error .missing
  else if pathLimit ≤ path.length then .error .tooLong
  else
    let start := if path.head? == some slash then Place.above else .directory []
    (path.splitAt slash).foldlM tree.step start

/-! ## Opening and reading -/

/-- The failure of doing something with a path. -/
def trouble (verb : String) (path reason : Text) : Failure :=
  .message (utf8 verb ++ utf8 " " ++ path ++ utf8 ": " ++ reason)

/-- The failure of reading a directory. -/
def unreadable (path : Text) : Failure := trouble "read" path (utf8 "is a directory")

/-- Opens the file at a path. -/
def openFile (tree : FileTree) (path : Text) : Except Failure File :=
  match tree.resolve path with
  | .error problem => .error (trouble "open" path problem.wording)
  | .ok (.file content) => .ok { stream := .ofText path content }
  | .ok (.directory _) | .ok .above => .ok { stream := .failing path [] (unreadable path) }

/-- The content of the file at a path. -/
def contentAt (tree : FileTree) (path : Text) : Except Failure Text := do
  let file ← tree.openFile path
  match file.stream.failure with
  | some failure => throw failure
  | none => return file.stream.lines.flatten

end FileTree

end ColonMachine
