import BraceTree.Diagnostic
import BraceTree.Text.Quoted

/-!
# Braces

A brace inside a string literal is text; the others are *structural*, and a source has blocks when
its structural braces match. Finding them and matching them are two steps: `Brace.ofSource` lists
the structural braces, and `Brace.pair` matches a list of braces with a stack of those still open. A
pair is complete when its closing brace is reached, so inner pairs come before those around them.
-/

namespace BraceTree

/-- A brace outside of string literals. -/
structure Brace where
  /-- The position of the brace. -/
  offset : Nat
  /-- Whether it opens a block. -/
  isOpen : Bool
  deriving DecidableEq, Inhabited

namespace Brace

/-- The braces among some glyphs, the first of which stands at the given position. -/
def ofGlyphs : (offset : Nat) → List Glyph → List Brace
  | _, [] => []
  | offset, g :: gs =>
    let rest := ofGlyphs (offset + g.char.utf8Size) gs
    if g.is '{' then ⟨offset, true⟩ :: rest
    else if g.is '}' then ⟨offset, false⟩ :: rest
    else rest

/-- The structural braces of a source, in order. -/
def ofSource (source : Text) : List Brace := ofGlyphs 0 source.glyphs

/-- The span of a single brace. -/
def spanAt (offset : Nat) : Span := ⟨offset, offset + 1⟩

/-- Matches braces, given the positions of the opening ones that still wait for theirs, the last one
first. The pairs come out in the order of their closing braces. -/
def pair : (waiting : List Nat) → List Brace → Except Finding (List Span)
  | [], [] => .ok []
  | o :: os, [] => .error ⟨.unclosedBrace (os.length + 1), spanAt o⟩
  | waiting, b :: bs =>
    if b.isOpen then pair (b.offset :: waiting) bs
    else
      match waiting with
      | [] => .error ⟨.strayBrace, spanAt b.offset⟩
      | o :: os => (pair os bs).map (⟨o, b.offset + 1⟩ :: ·)

end Brace

/-- The braces of a source and the spans of the blocks they make. -/
structure Extraction where
  /-- The span of each block, in the order in which the blocks close. -/
  spans : List Span
  /-- The structural braces in order. -/
  braces : List Brace

namespace Extraction

/-- Finds the blocks of a source, or the brace that has no partner. -/
def ofSource (source : Text) : Except Finding Extraction :=
  (Brace.pair [] (Brace.ofSource source)).map fun spans => ⟨spans, Brace.ofSource source⟩

end Extraction
end BraceTree
