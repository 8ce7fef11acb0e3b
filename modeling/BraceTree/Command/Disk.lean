import BraceTree.Text.Basic

/-!
# Files

An action reads files and looks through folders, and nothing else of a disk matters to it. `Disk`
holds these two operations over any monad, so an action is the same whether its files lie on a real
disk or in memory. `Disk.ofFiles` is the disk in memory: a list of files, in which a folder is
whatever some file lies in.

A path is read from left to right like a walk: an empty part and a single point stay, two points go
up, and everything else has to be there.
-/

namespace BraceTree.Command

/-- Why a file cannot be read. -/
inductive ReadFailure where
  /-- There is nothing at the path. -/
  | notFound
  /-- There is a folder at the path. -/
  | isFolder
  /-- The path leads through a file. -/
  | throughFile
  /-- The path or a part of it is too long. -/
  | tooLong
  /-- The file is not encoded as UTF-8. -/
  | notText
  /-- Any other reason. -/
  | other (message : String)
  deriving DecidableEq

namespace ReadFailure

/-- What a failure tells the user. -/
def message : ReadFailure → String
  | .notFound => "No such file or directory (os error 2)"
  | .isFolder => "Is a directory (os error 21)"
  | .throughFile => "Not a directory (os error 20)"
  | .tooLong => "File name too long (os error 36)"
  | .notText => "stream did not contain valid UTF-8"
  | .other message => message

/-- Whether there is a file, although it cannot be read. -/
def isOfFile : ReadFailure → Bool
  | .notText | .other _ => true
  | _ => false

end ReadFailure

/-- What actions ask of a disk. -/
structure Disk (m : Type → Type) where
  /-- The text of a file. -/
  read : String → m (Except ReadFailure String)
  /-- The files in a folder and in the folders below it, each as the parts of its path from there.
  A path that is no folder has none. -/
  filesBelow : String → m (List (List String))

namespace Disk

/-- Whether there is a file at a path. -/
def isFile {m : Type → Type} [Monad m] (disk : Disk m) (path : String) : m Bool := do
  match ← disk.read path with
  | .ok _ => return true
  | .error failure => return failure.isOfFile

end Disk

/-! ## Paths -/

namespace Path

/-- The parts of a path between its slashes. -/
def parts (path : String) : List String :=
  (Text.splitAt '/' path.toList).map String.ofList

/-- The parts of a path that name something. -/
def names (path : String) : List String :=
  (parts path).filter fun p => p != "" && p != "."

/-- Puts the parts of a path together. -/
def ofParts (ps : List String) : String := "/".intercalate ps

/-- The path to a file below a folder. -/
def append (folder : String) (below : List String) : String :=
  if folder.toList.getLast? = some '/' then folder ++ ofParts below
  else folder ++ "/" ++ ofParts below

/-- The last part of a path. -/
def fileName (path : String) : String := String.ofList (Text.afterLast '/' path.toList)

/-- What of the second list is behind the first, if it starts with it. -/
def below? : (folder path : List String) → Option (List String)
  | [], path => some path
  | _ :: _, [] => none
  | f :: folder, p :: path => if f = p then below? folder path else none

end Path

/-! ## Files in memory -/

/-- Files by the parts of their paths. -/
abbrev Files := List (List String × String)

namespace Files

/-- Where a walk along a path has come to. -/
inductive Place where
  /-- In a folder. -/
  | folder (path : List String)
  /-- In a folder above the one of all files. -/
  | above
  /-- At a file with this text. -/
  | file (text : String)

/-- The files below a folder. -/
def below (fs : Files) (folder : List String) : List (List String) :=
  fs.filterMap fun f => Path.below? folder f.1

/-- The longest part of a path in bytes. -/
def maxPart : Nat := 255

/-- The longest path in bytes. -/
def maxPath : Nat := 4095

/-- Goes one part of a path further. There is no way down from above. -/
def step (fs : Files) (place : Place) (part : String) : Except ReadFailure Place :=
  match place with
  | .file _ => .error .throughFile
  | .above =>
    if part = "" ∨ part = "." ∨ part = ".." then .ok .above
    else if maxPart < part.utf8ByteSize then .error .tooLong
    else .error .notFound
  | .folder path =>
    if part = "" ∨ part = "." then .ok (.folder path)
    else if part = ".." then .ok (if path.isEmpty then .above else .folder path.dropLast)
    else if maxPart < part.utf8ByteSize then .error .tooLong
    else
      let next := path ++ [part]
      match fs.find? fun f => f.1 = next with
      | some f => .ok (.file f.2)
      | none => if (below fs next).isEmpty then .error .notFound else .ok (.folder next)

/-- Walks along a path. It starts in the folder of all files, or above if a slash comes first. -/
def walk (fs : Files) (path : String) : Except ReadFailure Place :=
  if path.isEmpty then .error .notFound
  else if maxPath < path.utf8ByteSize then .error .tooLong
  else
    let start := if path.toList.head? = some '/' then .above else .folder []
    (Path.parts path).foldlM (step fs) start

/-- The text of the file at a path. -/
def read (fs : Files) (path : String) : Except ReadFailure String :=
  match walk fs path with
  | .ok (.file text) => .ok text
  | .ok (.folder _) | .ok .above => .error .isFolder
  | .error failure => .error failure

/-- The files in and below the folder at a path. -/
def filesBelow (fs : Files) (path : String) : List (List String) :=
  match walk fs path with
  | .ok (.folder folder) => below fs folder
  | _ => []

end Files

/-- A disk in memory that holds the given files. -/
def Disk.ofFiles (files : List (String × String)) : Disk Id :=
  let fs : Files := files.map fun f => (Path.names f.1, f.2)
  { read := Files.read fs
    filesBelow := Files.filesBelow fs }

end BraceTree.Command
