import BraceTree.Block.Tree
import BraceTree.Diagnostic
import BraceTree.Header.Place

/-!
# Classifying blocks

Every block but the root gets its kind from its header. The header of a block depends on the source
and on where the body of its parent starts, and on nothing that classifying another block could
change, so all blocks are classified at once, and the findings are collected in the order of the
tree.

Branches are checked afterwards: an `elif` or an `else` has to follow an `if` or an `elif` directly,
as the next child of the same parent.
-/

namespace BraceTree

namespace Header

/-- What the header of a block tells: its kind, where it stands, whether it was not understood, and
what is wrong with it. -/
structure Verdict where
  /-- The kind of the block. -/
  kind : BlockKind
  /-- Where the header stands. -/
  span : Span
  /-- Whether there is a header that was not understood. -/
  flagged : Bool
  /-- What is wrong with the header. -/
  problem : Option Problem

/-- The verdict on a header. -/
def verdict (h : Header) : Verdict :=
  match read? h.text with
  | none => ⟨.plain, h.span, true, some (.unclassifiedHeader (String.ofList h.text))⟩
  | some ⟨kind, none⟩ => ⟨kind, h.span, false, none⟩
  | some ⟨kind, some type⟩ =>
    let name := match kind with
      | .function s => s.name
      | _ => ""
    ⟨kind, h.span, false, some (.unknownReturnType type name)⟩

end Header

namespace BlockTree

/-- The verdict on a block: on its header, or that it is a plain block if it has none. -/
def verdict (t : BlockTree) (source : Text) (b : Block) : Header.Verdict :=
  let floor := match b.parent with
    | some p => (t.get p).body.start
    | none => 0
  match Header.find? source floor b.span.start with
  | some h => h.verdict
  | none => ⟨.plain, ⟨b.span.start, b.span.start⟩, false, none⟩

/-- Gives every block but the root its kind and its header. -/
def classify (t : BlockTree) (source : Text) : BlockTree :=
  ⟨t.blocks.map fun b =>
    if b.parent.isNone then b
    else
      let v := t.verdict source b
      { b with kind := v.kind, headerSpan := v.span, flagged := v.flagged }⟩

/-- What is wrong with headers, in the order of the tree. -/
def headerFindings (t : BlockTree) (source : Text) : List Finding :=
  t.preorder.filterMap fun id =>
    let b := t.get id
    if b.parent.isNone then none
    else
      let v := t.verdict source b
      v.problem.map fun p => ⟨p, v.span⟩

/-- The blocks among some children that go on with a branch that the child before them does not
allow, given the kind of the child before the first. -/
def dangling : (previous : Option BlockKind) → List Block → List Finding
  | _, [] => []
  | previous, b :: bs =>
    let rest := dangling (some b.kind) bs
    if b.kind.continuesBranch && !previous.any BlockKind.allowsBranch then
      ⟨.danglingBranch (match b.kind with | .elseBranch => "else" | _ => "elif"), b.headerSpan⟩ ::
        rest
    else rest

/-- All dangling branches, parent by parent in the order of the tree. -/
def branchFindings (t : BlockTree) : List Finding :=
  t.preorder.flatMap fun id => dangling none ((t.get id).children.map t.get)

end BlockTree
end BraceTree
