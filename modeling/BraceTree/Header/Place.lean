import BraceTree.Header.Grammar
import BraceTree.Text.Quoted

/-!
# Where headers stand

The header of a block stands on the line of its opening brace, or, when the brace opens its line, at
the end of the last line above that is not blank. In both cases it is looked for from its end
backwards: a header reaches back to the start of its line, but not over a brace or a semicolon
outside of parentheses, nor over a parenthesis that is opened and not closed.

A line above is only taken when what stands there opens a block. Otherwise it is a statement of the
parent, and the block has no header.
-/

namespace BraceTree

/-- A header found in a source. -/
structure Header where
  /-- Where the header stands, the blanks around it excluded. -/
  span : Span
  /-- The text of the header. -/
  text : Text

namespace Header

/-- The glyphs that belong to a header, from its end backwards, given how many closing parentheses
have been passed whose opening ones have not. -/
def backwards : (parens : Nat) → List Glyph → List Glyph
  | _, [] => []
  | parens, g :: gs =>
    if g.is ')' then g :: backwards (parens + 1) gs
    else if g.is '(' then
      match parens with
      | 0 => []
      | p + 1 => g :: backwards p gs
    else if (g.is '{' || g.is '}' || g.is ';') && parens == 0 then []
    else g :: backwards parens gs

/-- The part of a line that a header at its end takes, the blanks around it included. -/
def tail (line : Text) : Text := (Glyph.chars (backwards 0 line.glyphs.reverse)).reverse

/-- The header at the end of a text that ends at the position `stop`, none if there are only
blanks. -/
def atEnd? (stop : Nat) (before : Text) : Option Header :=
  let raw := tail (Text.afterLast '\n' before)
  let text := Text.trim raw
  if text.isEmpty then none
  else
    let start := stop - raw.bytes + Text.bytes (raw.takeWhile Text.isBlank)
    some ⟨⟨start, start + text.bytes⟩, text⟩

/-- The header on a line above a brace that opens its own line, given the text before the brace and
where that starts. -/
def above? (floor : Nat) (before : Text) : Option Header :=
  if before.contains '\n' && Text.isBlankText (Text.afterLast '\n' before) then
    let above := Text.trimEnd before
    (atEnd? (floor + above.bytes) above).filter fun h => (read? h.text).isSome
  else none

/-- The header of the block whose brace stands at `brace`, given where the body of its parent
starts. -/
def find? (source : Text) (floor brace : Nat) : Option Header :=
  let before := Text.slice source ⟨floor, brace⟩
  atEnd? brace before <|> above? floor before

end Header
end BraceTree
