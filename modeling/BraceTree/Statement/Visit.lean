import BraceTree.Block.Tree
import BraceTree.Text.Split

/-!
# The statements of a source

The statements of a block are cut out of what its children leave of its body, from their headers
through their closing braces. A newline ends a statement, and so does a semicolon outside of
literals, parentheses and square brackets; brackets left open do not reach over a newline.

Blocks are visited in the order of the source, each at its place among the statements of its parent.
So the order of the visits is the order in which the statements stand, whatever block they are in.
-/

namespace BraceTree

/-- A piece of a source, by its position and text. -/
structure Piece where
  /-- Where the piece starts. -/
  start : Nat
  /-- What it says. -/
  text : Text
  deriving DecidableEq

/-- A statement and the block it stands in. -/
structure Visit where
  /-- The block that the statement stands in. -/
  block : BlockId
  /-- Where it stands. -/
  span : Span
  /-- The statement, trimmed. -/
  text : Text
  deriving DecidableEq

namespace Piece

/-- Puts a character in front of a piece. -/
def extend (start : Nat) (c : Char) (p : Piece) : Piece := ⟨start, c :: p.text⟩

/-- Cuts glyphs into pieces, given where the first glyph stands and how many brackets are open. -/
def cut : (start depth : Nat) → List Glyph → List Piece
  | start, _, [] => [⟨start, []⟩]
  | start, depth, g :: gs =>
    let next := start + g.char.utf8Size
    if g.quoted then (cut next depth gs).modifyHead (extend start g.char)
    else if Text.isOpening g.char then
      (cut next (depth + 1) gs).modifyHead (extend start g.char)
    else if Text.isClosing g.char then
      (cut next (depth - 1) gs).modifyHead (extend start g.char)
    else if g.char = '\n' then ⟨start, []⟩ :: cut next 0 gs
    else if g.char = ';' ∧ depth = 0 then ⟨start, []⟩ :: cut next 0 gs
    else (cut next depth gs).modifyHead (extend start g.char)

/-- The statement that a piece holds, if it is not blank. -/
def visit? (block : BlockId) (p : Piece) : Option Visit :=
  let text := Text.trim p.text
  if text.isEmpty then none
  else
    let start := p.start + Text.bytes (p.text.takeWhile Text.isBlank)
    some ⟨block, ⟨start, start + text.bytes⟩, text⟩

end Piece

namespace Visit

/-- The statements in a part of a source that belongs to one block. -/
def ofSpan (source : Text) (block : BlockId) (s : Span) : List Visit :=
  (Piece.cut s.start 0 (Text.glyphs (Text.slice source s))).filterMap (Piece.visit? block)

/-- The statements of a block from `cursor` on, with those of the given children in their places;
`inside` tells the statements in a child. -/
def along (t : BlockTree) (source : Text) (block : BlockId) (inside : BlockId → List Visit) :
    (cursor : Nat) → List BlockId → List Visit
  | cursor, [] => ofSpan source block ⟨cursor, (t.get block).body.stop⟩
  | cursor, c :: cs =>
    let claimed := (t.get c).claimed
    ofSpan source block ⟨cursor, claimed.start⟩ ++
      (inside c ++ along t source block inside claimed.stop cs)

/-- The statements in a block and in the blocks in it, down to a depth below `bound`. -/
def within (t : BlockTree) (source : Text) : (bound : Nat) → BlockId → List Visit
  | 0, _ => []
  | bound + 1, id =>
    along t source id (within t source bound) (t.get id).body.start (t.get id).children

/-- All statements of a source. -/
def all (t : BlockTree) (source : Text) : List Visit := within t source t.depthBound BlockTree.root

end Visit
end BraceTree
