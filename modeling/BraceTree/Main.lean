import BraceTree.Command.Run

/-!
# The command line

Runs the arguments of the process on the real disk, writes what the run leaves behind, and ends with
its exit code. Files are read when the run asks for them. Folders are not walked: the files of a
folder are those that the standard input lists, one path on each line, so that
`find cases -type f | shs test cases` runs the fixtures in `cases`.
-/

namespace BraceTree.Main

open Command

/-- The number that the system gives to the reading of a folder. -/
def folderNumber : UInt32 := 21

/-- Why a file could not be read. -/
def failureOf : IO.Error → ReadFailure
  | .noFileOrDirectory _ _ _ => .notFound
  | .inappropriateType _ number _ => if number = folderNumber then .isFolder else .throughFile
  | .userError _ => .notText
  | failure => .other (toString failure)

/-- The text of a file. -/
def readFile (path : String) : IO (Except ReadFailure String) := do
  try
    return .ok (← IO.FS.readFile path)
  catch failure =>
    return .error (failureOf failure)

/-- The lines of the standard input. -/
partial def readLines (input : IO.FS.Stream) (lines : List String) : IO (List String) := do
  let line ← input.getLine
  if line.isEmpty then return lines.reverse
  readLines input (String.ofList (line.toList.filter (· != '\n')) :: lines)

/-- The listed files that are in or below a folder. -/
def filesBelow (folder : String) : IO (List (List String)) := do
  let listed ← readLines (← IO.getStdin) []
  return listed.filterMap fun path => Path.below? (Path.names folder) (Path.names path)

/-- The real disk. -/
def disk : Disk IO where
  read := readFile
  filesBelow := filesBelow

/-- Writes one text. -/
def write : Output → IO Unit
  | .out text => IO.print text
  | .err text => IO.eprint text

end BraceTree.Main

/-- Runs the command line. -/
def main (arguments : List String) : IO UInt32 := do
  let outcome ← BraceTree.Command.run BraceTree.Main.disk arguments
  for output in outcome.outputs do BraceTree.Main.write output
  return outcome.exitCode.toUInt32
