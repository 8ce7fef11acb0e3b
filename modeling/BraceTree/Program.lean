import BraceTree.Block.Outline
import BraceTree.Header.Classify
import BraceTree.Hierarchy
import BraceTree.Statement.Effect

/-!
# Programs

The parse of a source: its braces make blocks, the blocks are placed in a tree, headers give them
their kinds, and the statements fill their scopes. Unbalanced braces end the parse with one
diagnostic, and so would a block that cannot be placed. Everything else that is wrong is listed
beside the tree, in the order of the source.
-/

namespace BraceTree

/-- A parsed source. -/
structure Program where
  /-- The blocks with their variables and calls. -/
  tree : BlockTree
  /-- The lines with the blocks that own them. -/
  lines : List OwnedLine
  /-- What is wrong and did not end the parse, by position. -/
  diagnostics : List Diagnostic
  /-- The source that was parsed. -/
  sourceId : Nat

namespace Program

/-- What is wrong with a tree whose blocks are classified, headers first, then branches, then the
statements that were carried out. -/
def findings (classified : BlockTree) (source : Text) (statements : List Finding) : List Finding :=
  classified.headerFindings source ++ (classified.branchFindings ++ statements)

/-- The program of a tree in which all blocks have their places. -/
def ofTree (source : Text) (sourceId : Nat) (placed : BlockTree) : Program :=
  let lines := Line.ofSource source
  let classified := placed.classify source
  let (tree, statements) := Visit.run lines classified (Visit.all classified source)
  { tree
    lines := lines.map placed.ownLine
    diagnostics := ((findings classified source statements).map
      (Diagnostic.ofFinding lines sourceId)).mergeSort Diagnostic.precedes
    sourceId }

/-- Places the blocks of a source. -/
def place (source : Text) : Except Finding Forest :=
  (Extraction.ofSource source).bind (Forest.build source)

/-- Parses a text. -/
def ofText (source : Text) (sourceId : Nat) : Except Diagnostic Program :=
  let lines := Line.ofSource source
  match place source with
  | .error f => .error (Diagnostic.ofFinding lines sourceId f)
  | .ok forest => .ok (ofTree source sourceId (forest.finish lines))

/-- Parses a source. -/
def parse (source : String) (sourceId : Nat) : Except Diagnostic Program :=
  ofText source.toList sourceId

/-- Whether anything is wrong with a program. -/
def hasWarnings (p : Program) : Bool := !p.diagnostics.isEmpty

end Program
end BraceTree
