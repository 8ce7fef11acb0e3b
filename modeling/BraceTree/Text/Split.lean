import BraceTree.Text.Quoted

/-!
# Brackets and separators

Lists of arguments, elements and entries are cut at a separator that stands outside of literals,
parentheses and square brackets. The two kinds of bracket share one depth, and a closing bracket
that nothing opened is passed over: the cut does not check that brackets match. Where they have to,
`enclosed?` does, for one kind of bracket at a time.
-/

namespace BraceTree.Text

/-- The brackets that deepen the nesting. -/
def isOpening (c : Char) : Bool := c == '(' || c == '['

/-- The brackets that undo one level of nesting. -/
def isClosing (c : Char) : Bool := c == ')' || c == ']'

/-- The pieces of some glyphs between the separators at depth zero, given the depth at which the
glyphs start. -/
def splitGlyphs (sep : Char) : (depth : Nat) → List Glyph → List Text
  | _, [] => [[]]
  | depth, g :: gs =>
    if g.quoted then (splitGlyphs sep depth gs).modifyHead (g.char :: ·)
    else if isOpening g.char then (splitGlyphs sep (depth + 1) gs).modifyHead (g.char :: ·)
    else if isClosing g.char then (splitGlyphs sep (depth - 1) gs).modifyHead (g.char :: ·)
    else if g.char = sep ∧ depth = 0 then [] :: splitGlyphs sep 0 gs
    else (splitGlyphs sep depth gs).modifyHead (g.char :: ·)

/-- The trimmed pieces of a text between the separators outside of literals and brackets. There is
always at least one. -/
def splitTopLevel (sep : Char) (t : Text) : List Text := (splitGlyphs sep 0 t.glyphs).map trim

/-- Whether the bracket that is open `depth` times closes for the last time at the very end. -/
def closesAtEnd (left right : Char) : (depth : Nat) → List Glyph → Bool
  | _, [] => false
  | depth, g :: gs =>
    if g.quoted then closesAtEnd left right depth gs
    else if g.char = left then closesAtEnd left right (depth + 1) gs
    else if g.char = right then
      match depth with
      | 0 => false
      | 1 => gs.isEmpty
      | d + 2 => closesAtEnd left right (d + 1) gs
    else closesAtEnd left right depth gs

/-- What stands between the first and the last character of a text, if these are a bracket and the
one that closes it. -/
def enclosed? (left right : Char) (t : Text) : Option Text :=
  if t.head? = some left ∧ closesAtEnd left right 0 t.glyphs then some t.tail.dropLast else none

end BraceTree.Text
