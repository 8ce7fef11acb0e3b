import BraceTree.Block.Kind
import BraceTree.Expression
import BraceTree.Scope
import BraceTree.Text.Line

/-!
# The tree of blocks

The blocks of a source lie in one list. A block is known by its place in it, the first being the
root that spans the whole source, and blocks refer to their parent and their children by place. The
list keeps the order in which the blocks were found; the tree order is `preorder`.

Following these references is bounded by the source. On the way down the spans shrink and on the way
up they grow, so no path through the tree has more blocks than the source has bytes, give or take
the root and the empty source: that is `BlockTree.depthBound`.
-/

namespace BraceTree

/-- The place of a block in its tree. -/
abbrev BlockId := Nat

/-- A call made as a statement. -/
structure CallSite where
  /-- The call. -/
  call : Call
  /-- Where the statement stands. -/
  span : Span
  deriving DecidableEq, Inhabited

/-- A region of a source in braces, or all of it. -/
structure Block where
  /-- The construct the block belongs to. -/
  kind : BlockKind
  /-- The block, both braces included. -/
  span : Span
  /-- What stands between the braces. -/
  body : Span
  /-- The header before the opening brace, empty if there is none. -/
  headerSpan : Span
  /-- The text between the braces. -/
  text : String
  /-- The indices of the lines that the block touches. -/
  lines : Span
  /-- The block around this one; the root has none. -/
  parent : Option BlockId
  /-- The blocks directly in this one, in the order of the source. -/
  children : List BlockId
  /-- The variables declared in this block. -/
  scope : Scope
  /-- The calls made in this block. -/
  calls : List CallSite
  /-- Whether there is a header that was not understood. -/
  flagged : Bool
  deriving Inhabited

namespace Block

/-- The block of a span with its braces, not yet placed. -/
def provisional (source : Text) (span : Span) : Block where
  kind := .plain
  span := span
  body := ⟨span.start + 1, span.stop - 1⟩
  headerSpan := ⟨span.start, span.start⟩
  text := String.ofList (Text.slice source ⟨span.start + 1, span.stop - 1⟩)
  lines := ⟨0, 0⟩
  parent := none
  children := []
  scope := .empty
  calls := []
  flagged := false

/-- The block of a whole source. -/
def root (source : Text) : Block where
  kind := .main
  span := ⟨0, source.bytes⟩
  body := ⟨0, source.bytes⟩
  headerSpan := ⟨0, 0⟩
  text := String.ofList source
  lines := ⟨0, 0⟩
  parent := none
  children := []
  scope := .empty
  calls := []
  flagged := false

/-- The header of a block, as written. -/
def header (b : Block) (source : Text) : String := String.ofList (Text.slice source b.headerSpan)

/-- What a block takes of its parent's body: from its header through its closing brace. -/
def claimed (b : Block) : Span := ⟨min b.headerSpan.start b.span.start, b.span.stop⟩

end Block

/-- The blocks of a source. -/
structure BlockTree where
  /-- The blocks in the order in which they were found, the root first. -/
  blocks : List Block
  deriving Inhabited

namespace BlockTree

/-- The place of the root. -/
def root : BlockId := 0

/-- The tree that is all root. -/
def ofSource (source : Text) : BlockTree := ⟨[Block.root source]⟩

/-- The number of blocks. -/
def size (t : BlockTree) : Nat := t.blocks.length

/-- The block at a place. -/
def get (t : BlockTree) (id : BlockId) : Block := t.blocks.getD id default

/-- Changes the block at a place. -/
def modify (t : BlockTree) (id : BlockId) (f : Block → Block) : BlockTree :=
  ⟨t.blocks.modify id f⟩

/-- Adds a block at the end. -/
def push (t : BlockTree) (b : Block) : BlockTree := ⟨t.blocks ++ [b]⟩

/-- Puts a block under another one, after the children that it has. -/
def attach (t : BlockTree) (parent child : BlockId) : BlockTree :=
  (t.modify child fun b => { b with parent := some parent }).modify parent fun b =>
    { b with children := b.children ++ [child] }

/-- More than the number of blocks on any path through the tree. -/
def depthBound (t : BlockTree) : Nat := (t.get root).span.stop + 2

/-! ## The way up -/

/-- A block and the first `bound - 1` of the blocks around it, from the inside out. -/
def pathUp (t : BlockTree) : (bound : Nat) → BlockId → List BlockId
  | 0, _ => []
  | bound + 1, id =>
    id :: match (t.get id).parent with
      | none => []
      | some p => t.pathUp bound p

/-- A block and all blocks around it, from the inside out. -/
def pathToRoot (t : BlockTree) (id : BlockId) : List BlockId := t.pathUp t.depthBound id

/-- The blocks around a block, from the inside out. -/
def ancestors (t : BlockTree) (id : BlockId) : List BlockId := (t.pathToRoot id).tail

/-- The number of blocks around a block. -/
def depth (t : BlockTree) (id : BlockId) : Nat := (t.ancestors id).length

/-- What a name means in a block: the innermost block among it and those around it that declares the
name, and the variable declared there. -/
def lookup? (t : BlockTree) (id : BlockId) (name : String) : Option (BlockId × Variable) :=
  (t.pathToRoot id).findSome? fun b => ((t.get b).scope.get? name).map fun v => (b, v)

/-! ## The way down -/

/-- A block and the blocks in it down to a depth below `bound`, each before those in it. -/
def preorderFrom (t : BlockTree) : (bound : Nat) → BlockId → List BlockId
  | 0, _ => []
  | bound + 1, id => id :: (t.get id).children.flatMap (t.preorderFrom bound)

/-- All blocks in the order of the source, each before those in it. -/
def preorder (t : BlockTree) : List BlockId := t.preorderFrom t.depthBound root

/-- The innermost block, at most `bound` levels below a block, whose body holds a position. -/
def blockAtFrom (t : BlockTree) (offset : Nat) : (bound : Nat) → BlockId → BlockId
  | 0, id => id
  | bound + 1, id =>
    match (t.get id).children.find? fun c => (t.get c).body.covers offset with
    | none => id
    | some c => t.blockAtFrom offset bound c

/-- The innermost block whose body holds a position; the root holds every position. -/
def blockAt (t : BlockTree) (offset : Nat) : BlockId := t.blockAtFrom offset t.depthBound root

/-! ## Edits -/

/-- Declares a variable in a block, unless the block has one of that name. -/
def declare? (t : BlockTree) (id : BlockId) (v : Variable) : Option BlockTree :=
  ((t.get id).scope.declare? v).map fun s => t.modify id fun b => { b with scope := s }

/-- Replaces what the variable that a name means in a block holds. -/
def setBinding? (t : BlockTree) (id : BlockId) (name : String) (binding : Binding) :
    Option BlockTree :=
  (t.lookup? id name).bind fun (owner, _) =>
    ((t.get owner).scope.setBinding? name binding).map fun s =>
      t.modify owner fun b => { b with scope := s }

/-- Adds a call to those of a block. -/
def addCall (t : BlockTree) (id : BlockId) (c : CallSite) : BlockTree :=
  t.modify id fun b => { b with calls := b.calls ++ [c] }

end BlockTree
end BraceTree
