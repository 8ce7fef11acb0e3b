import BraceTree.Block.Tree

/-!
# Outlines

The tree as indented text: a line for each block, in the order of the source, and below it, one step
further in, a line for each of its variables and calls. A block whose header was not understood
shows it.
-/

namespace BraceTree.BlockTree

/-- The indentation of a depth. -/
def indentation (depth : Nat) : String := String.ofList (List.replicate (2 * depth) ' ')

/-- The line of a block, without its indentation. -/
def title (t : BlockTree) (source : Text) (id : BlockId) : String :=
  let b := t.get id
  b.kind.display ++
    if b.flagged then
      " [unclassified: " ++ String.ofList (Text.trim (Text.slice source b.headerSpan)) ++ "]"
    else ""

/-- The lines of a block: its title, its variables and its calls. -/
def outlineLines (t : BlockTree) (source : Text) (id : BlockId) : List String :=
  let b := t.get id
  let indent := indentation (t.depth id)
  (indent ++ t.title source id) ::
    (b.scope.toList.map (fun v => indent ++ "  " ++ v.display) ++
      b.calls.map (fun c => indent ++ "  call " ++ c.call.display))

/-- The outline of a tree. -/
def outline (t : BlockTree) (source : Text) : String :=
  String.join ((t.preorder.flatMap (t.outlineLines source)).map (· ++ "\n"))

end BraceTree.BlockTree
