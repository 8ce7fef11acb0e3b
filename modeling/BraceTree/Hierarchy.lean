import BraceTree.Block.Tree
import BraceTree.Brace

/-!
# Placing blocks in a hierarchy

Blocks come as a list of spans; this module finds the parent of each. It works from the inside out,
in rounds. A round takes the *frontier*, the unplaced blocks that hold no other unplaced block, and
looks for the nearest pair of braces around each of them. The block with exactly that span becomes
the parent. If there is none it is made, and then waits for a place itself. A block with no braces
around it goes under the root.

The list of braces need not be the one that the spans were found by. A block whose own braces are
not in it, or that has an open brace on one side and no closing one on the other, cannot be placed.

Every round places a block, and all blocks that are made have their braces in the list, so there are
no more rounds than given blocks and pairs of braces: `Forest.roundBound`.
-/

namespace BraceTree

/-- The size of a round: how many blocks wait for a place, and how many of them are taken on. -/
structure Round where
  /-- The number of blocks without a place. -/
  unplaced : Nat
  /-- The number of those that hold no other. -/
  frontier : Nat
  deriving DecidableEq

/-- A tree in which some blocks still wait for a place. -/
structure Forest where
  /-- All blocks, placed or not. -/
  tree : BlockTree
  /-- The blocks that wait for a place, in the order of the tree. -/
  unplaced : List BlockId
  /-- The rounds so far. -/
  rounds : List Round

namespace Brace

/-- The nearest opening brace that is not closed, in a list that runs backwards, given how many
closing braces wait for theirs. -/
def unmatchedOpen? : (depth : Nat) → List Brace → Option Nat
  | _, [] => none
  | depth, b :: bs =>
    if b.isOpen then
      match depth with
      | 0 => some b.offset
      | d + 1 => unmatchedOpen? d bs
    else unmatchedOpen? (depth + 1) bs

/-- The nearest closing brace that was not opened, given how many opening braces wait for theirs. -/
def unmatchedClose? : (depth : Nat) → List Brace → Option Nat
  | _, [] => none
  | depth, b :: bs =>
    if b.isOpen then unmatchedClose? (depth + 1) bs
    else
      match depth with
      | 0 => some b.offset
      | d + 1 => unmatchedClose? d bs

/-- Why the braces around a span cannot be told. -/
inductive Misfit where
  /-- The span does not start and end with braces of the list. -/
  | unrecorded
  /-- There is a brace on one side only. -/
  | halfEnclosed
  deriving DecidableEq

/-- The nearest pair of braces around a span, none if it stands at the top. -/
def enclosing? (braces : List Brace) (span : Span) : Except Misfit (Option Span) :=
  match braces.findIdx? (·.offset == span.start), braces.findIdx? (·.offset == span.stop - 1) with
  | some first, some last =>
    match unmatchedOpen? 0 (braces.take first).reverse,
        unmatchedClose? 0 (braces.drop (last + 1)) with
    | some o, some c => .ok (some ⟨o, c + 1⟩)
    | none, none => .ok none
    | _, _ => .error .halfEnclosed
  | _, _ => .error .unrecorded

end Brace

namespace Forest

/-- The blocks of an extraction, all of them unplaced. -/
def ofExtraction (source : Text) (e : Extraction) : Forest where
  tree := e.spans.foldl (fun t s => t.push (.provisional source s)) (.ofSource source)
  unplaced := List.range' 1 e.spans.length
  rounds := []

/-- The span of a block. -/
def span (f : Forest) (id : BlockId) : Span := (f.tree.get id).span

/-- The unplaced blocks that hold no other unplaced block, by where they start. -/
def frontier (f : Forest) : List BlockId :=
  (f.unplaced.filter fun id => !f.unplaced.any fun other => (f.span id).encloses (f.span other))
    |>.mergeSort fun a b => (f.span a).start ≤ (f.span b).start

/-- The order in which a round serves the parents: the root first, then by span. -/
def parentPrecedes : Option Span → Option Span → Bool
  | none, _ => true
  | some _, none => false
  | some a, some b => a.precedes b

/-- The last block with a span, the root aside. -/
def withSpan? (f : Forest) (s : Span) : Option BlockId :=
  ((List.range f.tree.size).reverse.filter (· != BlockTree.root)).find? fun id => f.span id == s

/-- Puts a block under the block of the given span, which is made if there is none, or under the
root if no span is given. -/
def place (source : Text) (f : Forest) (parent : Option Span) (child : BlockId) : Forest :=
  match parent with
  | none => { f with
      tree := f.tree.attach BlockTree.root child
      unplaced := f.unplaced.erase child }
  | some s =>
    match f.withSpan? s with
    | some id => { f with
        tree := f.tree.attach id child
        unplaced := f.unplaced.erase child }
    | none => { f with
        tree := (f.tree.push (.provisional source s)).attach f.tree.size child
        unplaced := (f.unplaced ++ [f.tree.size]).erase child }

/-- What to report when a block cannot be placed, with the start of its text. -/
def misfit (source : Text) (f : Forest) (id : BlockId) (m : Brace.Misfit) : Finding :=
  let start := String.ofList ((Text.slice source (f.span id)).take 40)
  match m with
  | .unrecorded => ⟨.unrecordedBraces start, f.span id⟩
  | .halfEnclosed => ⟨.halfEnclosed start, f.span id⟩

/-- Finds the parents of the given blocks, in their order. -/
def parents (source : Text) (braces : List Brace) (f : Forest) :
    List BlockId → Except Finding (List (Option Span × BlockId))
  | [] => .ok []
  | id :: ids =>
    match Brace.enclosing? braces (f.span id) with
    | .error m => .error (f.misfit source id m)
    | .ok parent => (f.parents source braces ids).map ((parent, id) :: ·)

/-- One round: every block of the frontier gets its place. -/
def round (source : Text) (braces : List Brace) (f : Forest) : Except Finding Forest :=
  let size : Round := ⟨f.unplaced.length, f.frontier.length⟩
  (f.parents source braces f.frontier).map fun placements =>
    (placements.mergeSort fun a b => parentPrecedes a.1 b.1).foldl
      (fun f p => f.place source p.1 p.2) { f with rounds := f.rounds ++ [size] }

/-- Runs rounds until every block has its place, at most `bound` of them. -/
def settle (source : Text) (braces : List Brace) : (bound : Nat) → Forest → Except Finding Forest
  | 0, f => .ok f
  | bound + 1, f =>
    if f.unplaced.isEmpty then .ok f
    else (f.round source braces).bind (settle source braces bound)

/-- No run has more rounds than this. -/
def roundBound (e : Extraction) : Nat := e.spans.length + e.braces.length * e.braces.length + 1

/-- Puts the children of every block in the order of the source, and notes which lines each block
touches. -/
def finish (lines : List Line) (f : Forest) : BlockTree :=
  ⟨f.tree.blocks.map fun b => { b with
    children := b.children.mergeSort fun c d => (f.span c).start ≤ (f.span d).start
    lines := Line.indicesIn lines b.span }⟩

/-- Places all blocks of an extraction. -/
def build (source : Text) (e : Extraction) : Except Finding Forest :=
  settle source e.braces (roundBound e) (ofExtraction source e)

end Forest

/-- A line and the innermost block that it starts in. -/
structure OwnedLine extends Line where
  /-- The innermost block whose body holds the first character that is no blank, or the start of a
  blank line. -/
  owner : BlockId
  deriving DecidableEq, Inhabited

namespace BlockTree

/-- Finds the owner of a line. -/
def ownLine (t : BlockTree) (l : Line) : OwnedLine :=
  ⟨l, t.blockAt (l.contentOffset?.getD l.span.start)⟩

end BlockTree
end BraceTree
